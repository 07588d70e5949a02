import TestBench.Programs.Search
import TestBench.Shell.Frame
import TestBench.Shell.Invocation
import TestBench.Shell.Jobs
import TestBench.Tools.Table

/-!
Running commands, and the programs that they start. Every act is given a limit
on how deeply acts may call each other.
-/
namespace TestBench.Shell

open Programs (Runnable)

namespace Run

/-- How many microseconds a command takes where time matters. -/
def commandTime : Nat := 100

/-- Lets the time pass that a command takes, if there is an end to it. -/
def beat : Act Unit := do
  if (← get).deadline.isSome then
    let _ ← pass commandTime
    if (← get).isExpired then throw (.killed Signal.terminate)

/-- Where programs are looked for if nothing is said about this. -/
def usualPath : List Char := octets "/bin:/usr/bin"

def directories : Act (List (List Char)) := do
  return Path.splitAt ':' (((← get).shell.value? "PATH").getD usualPath)

/-- The path of a program, and what is run. -/
def findProgram (name : List Char) (arguments : List (List Char)) :
    Act (Except FileError (List Char × Runnable)) := do
  return Programs.search (← get).view true (← directories) name arguments

/-- Words that are commands of the shell and run other commands, or decide which one comes next. -/
def recursive : List String :=
  [".", "break", "command", "continue", "eval", "exec", "exit", "hash", "return", "type", "wait"]

/-- Says why a program cannot be run, and sets the status. -/
def unstarted (name : List Char) (e : FileError) : Act Unit := do
  let dialect := (← get).shell.dialect
  let (message, status) := match e, dialect with
    | .notFound, .wordy =>
      if name.contains '/' then (e.reason, 127) else ("command not found", 127)
    | .notFound, .brief | .notDirectory, .brief =>
      if name.isEmpty then (FileError.permissionDenied.reason, 127) else ("not found", 127)
    | .nameTooLong, .brief => (e.reason, 127)
    | _, _ => (e.reason, if name.contains '/' then 126 else 127)
  complain (name ++ octets (": " ++ message))
  setStatus status

/-- Says that a command of the shell could not write, if this is so. -/
def settle (name : String) : Act Unit := do
  if let some e ← takeTrouble then
    match (← get).shell.dialect with
    | .brief => complain (octets (name ++ ": I/O error"))
    | .wordy => complain (octets ("write error: " ++ e.reason))
    changeShell fun sh => { sh with status := sh.status ||| 1 }

/-- Says which signal has ended a program, unless this is usual. -/
def sayEnded (signal : Nat) : Act Unit := do
  unless signal = Signal.interrupt ∨ signal = Signal.brokenPipe do
    say (octets (Signal.meaning signal))

/-- Takes the status that a command of the shell leaves. After a fault, some of them leave the
shell. -/
def outcome (isStrict : Bool) (name : String) (act : Act Outcome) : Act Unit :=
  asCommand (octets name) do
    match ← act with
    | .status n =>
      setStatus n
      settle name
    | .fault message =>
      complain message
      setStatus 2
      settle name
      if isStrict then throw .exit

def track (name : List Char) : Act Unit := do
  unless name.contains '/' do
    changeShell fun sh => { sh with tracked := name :: sh.tracked.filter (· != name) }

/-- The order in which programs are listed that have been found. -/
def trackingPlace (name : List Char) : Nat :=
  (16 * (name.headD '\x00').toNat + (name.foldl (fun n d => n + d.toNat) 0)) % 31

/-- Says what one word stands for as a command. -/
def describe (wordy : Bool) (name : List Char) : Act Unit := do
  let known := String.ofList name
  let sh := (← get).shell
  let told (text : List Char) : Act Unit := do
    print (text ++ ['\n'])
    setStatus 0
  let plainly (what : String) : Act Unit :=
    told (if wordy then name ++ octets (" is " ++ what) else name)
  if Lexeme.reserved.contains known then plainly "a shell keyword"
  else if let some value := List.lookup known sh.aliases then
    told (if wordy then name ++ octets " is an alias for " ++ value
      else octets "alias " ++ (Builtin.written? sh known).getD [])
  else if Builtin.special.contains known then plainly "a special shell builtin"
  else if (List.lookup known sh.functions).isSome then plainly "a shell function"
  else if (Builtin.find? known).isSome ∨ recursive.contains known then plainly "a shell builtin"
  else
    let found ← if name.contains '/' then
        pure (((← get).view.find (pathOf name)).map fun _ => name)
      else pure ((← findProgram name []).map (·.1))
    match found with
    | .ok path =>
      track name
      let how := if sh.tracked.contains name then " is a tracked alias for " else " is "
      told (if wordy then name ++ octets how ++ path else path)
    | .error _ =>
      if wordy then print (name ++ octets ": not found\n")
      setStatus 127

/-- The rooms that pipes have, one after the other, when more is read than has been written. -/
def rooms : List (Option Nat) := [some (1 <<< 16), some (1 <<< 20), some (1 <<< 24), none]

/-- Leads what is read to a text while something is done, and says whether more of it was needed. -/
def reading (text : List Char) (isCut : Bool) (act : Act Unit) : Act Bool := do
  let outer := (← get).shell.descriptors
  modify (·.openChannel 0 (.source text isCut))
  tryCatch (do
    andAlways act (changeShell fun sh => { sh with descriptors := outer })
    return false) fun
    | .starved => if isCut then return true else throw .starved
    | other => throw other

/-- Runs one act and gives what it prints to another one. If this needs more than there was room
for, everything is done again with more room. -/
def connected (first rest : Act Unit) : List (Option Nat) → Act Unit
  | [] => throw .starved
  | room :: others => do
    let saved ← get
    let (text, isCut) ← piped room first
    if ← reading text isCut rest then
      set saved
      connected first rest others

/-- The options of a command that runs another one, and what is left of its arguments. -/
def commandOptions : List (List Char) → List Char × List (List Char)
  | ['-', '-'] :: rest => ([], rest)
  | ('-' :: c :: cs) :: rest =>
    let (letters, operands) := commandOptions rest
    (c :: cs ++ letters, operands)
  | rest => ([], rest)

/-- Looks for programs in advance, or shows which ones have been found. -/
def hash (arguments : List (List Char)) : Act Outcome := do
  let sh := (← get).shell
  match arguments with
  | [] =>
    let ordered := sh.tracked.mergeSort fun a b => trackingPlace a ≤ trackingPlace b
    ordered.forM fun name => do
      if let .ok (path, _) := ← findProgram name [] then print (path ++ ['\n'])
    return .status 0
  | ['-', 'r'] :: _ =>
    changeShell fun sh => { sh with tracked := [] }
    return .status 0
  | _ =>
    let results ← arguments.mapM fun name => do
      let known := String.ofList name
      if (Builtin.find? known).isSome ∨ recursive.contains known
          ∨ (List.lookup known sh.functions).isSome then return true
      match ← findProgram name [] with
      | .ok _ =>
        track name
        return true
      | .error _ =>
        complain (name ++ octets ": not found")
        return false
    return Builtin.ofTruth (results.all id)

/-- Keeps what a shell ends with, whatever ends it, if this ends it only. -/
def untilEnd (act : Act Unit) : Act Unit :=
  tryCatch act fun
    | .leave _ | .again _ | .back | .exit => return ()
    | other => throw other

mutual

/-- Runs a command. Its status may be tested by what surrounds it. -/
def run : Nat → Bool → Command → Act Unit
  | 0, _, _ => throw .never
  | limit + 1, tested, c => do
    let outputOf := output limit
    if (← get).shell.has 'n' then return ()
    match c with
    | .nothing => return ()
    | .simple line assignments words redirections =>
      simple limit tested line assignments words redirections
    | .redirected line body redirections =>
      changeShell fun sh => { sh with line := line }
      Redirect.around outputOf redirections (run limit tested body)
      Frame.check tested
    | .pipeline stages =>
      inputs limit stages
      Frame.check tested
    | .negation body =>
      run limit true body
      Frame.negate
    | .both first second =>
      run limit true first
      if (← get).shell.status = 0 then run limit tested second
    | .either first second =>
      run limit true first
      if (← get).shell.status ≠ 0 then run limit tested second
    | .sequence first second =>
      run limit tested first
      run limit tested second
    | .background body => background limit body
    | .subshell body =>
      inSubshell (whole limit (run limit tested body))
      Frame.check tested
    | .branch condition yes no =>
      run limit true condition
      if (← get).shell.status = 0 then run limit tested yes
      else
        setStatus 0
        run limit tested no
    | .repeated goal condition body =>
      Frame.inLoop (repeated limit tested goal condition body 0)
    | .forEach line name words body =>
      changeShell fun sh => { sh with line := line }
      let values ← match words with
        | some ws => Expansion.fields outputOf ws
        | none => pure (← get).shell.arguments
      setStatus 0
      Frame.inLoop (forEach limit tested name values body)
    | .choice line subject arms =>
      changeShell fun sh => { sh with line := line }
      let text ← Expansion.text outputOf subject
      choose limit tested text arms
    | .define name body =>
      changeShell fun sh =>
        { sh with functions := (name, body) :: sh.functions.filter (·.1 != name), status := 0 }

/-- Runs a body while a condition ends as it should. The status is that of the last body. -/
def repeated : Nat → Bool → Bool → Command → Command → Nat → Act Unit
  | 0, _, _, _, _, _ => throw .never
  | limit + 1, tested, goal, condition, body, last => do
    let goesOn ← Frame.once (run limit true condition)
    if goesOn ∧ ((← get).shell.status = 0) = goal then
      if ← Frame.once (run limit tested body) then
        repeated limit tested goal condition body (← get).shell.status
    else setStatus last

def forEach : Nat → Bool → String → List (List Char) → Command → Act Unit
  | 0, _, _, _, _ => throw .never
  | _ + 1, _, _, [], _ => return ()
  | limit + 1, tested, name, value :: rest, body => do
    assign name value
    if ← Frame.once (run limit tested body) then forEach limit tested name rest body

/-- Runs the first arm of a choice that has a pattern for a text. -/
def choose : Nat → Bool → List Char → List (List Word × Command) → Act Unit
  | 0, _, _, _ => throw .never
  | _ + 1, _, _, [] => setStatus 0
  | limit + 1, tested, text, (patterns, body) :: arms => do
    let found ← patterns.anyM fun w => do
      return Pattern.accepts (← Expansion.pattern (output limit) w) text
    if found then
      setStatus 0
      run limit tested body
    else choose limit tested text arms

/-- Runs the stages of a pipeline. Each of them reads what the one before it has printed. -/
def inputs : Nat → List Command → Act Unit
  | 0, _ => throw .never
  | _ + 1, [] => return ()
  | limit + 1, [last] => inSubshell (whole limit (run limit false last))
  | limit + 1, first :: rest =>
    connected (inSubshell (whole limit (run limit false first))) (inputs limit rest) rooms

/-- What a command prints in a shell of its own, without line feeds at the end. -/
def output : Nat → Command → Act (List Char)
  | 0, _ => throw .never
  | limit + 1, body => do
    let before := (← get).shell.status
    let text ← captured (inSubshell (whole limit (run limit false body)))
    changeShell fun sh => { sh with substituted := sh.status, status := before }
    return Path.dropTrailing (· == '\n') (text.filter (· != '\x00'))

/-- Does all that a shell does, and what it does at its end. -/
def whole : Nat → Act Unit → Act Unit
  | 0, _ => throw .never
  | limit + 1, act => do
    untilEnd act
    let sh := (← get).shell
    match List.lookup 0 sh.traps with
    | some action =>
      changeShell fun sh => { sh with traps := sh.traps.filter (·.1 != 0) }
      untilEnd (do
        text limit false action
        setStatus sh.status)
    | none => return ()

def background : Nat → Command → Act Unit
  | 0, _ => throw .never
  | limit + 1, body => do
    let number := (← get).nextProcess
    let outer := { (← get).shell with background := some number, status := 0 }
    changeShell fun _ => outer
    modify fun s => (s.addJob (.ended 0)).openChannel 0 (.device .empty)
    changeShell fun sh => { sh with traps := sh.traps.filter (·.2.isEmpty) }
    let s ← get
    let later (time : Option Nat) (rest : Command) : Act Unit :=
      modify (·.setJob number (.asleep (time.map (s.clock + ·)) rest s.shell))
    match body.pause? with
    | some (some time, rest) => later (some time) rest
    | _ =>
      if body.pauses then later none body
      else
        inSubshell (whole limit (run limit false body))
        let status := (← get).shell.status
        modify (·.setJob number (.ended status))
    changeShell fun _ => outer

/-- Runs a job up to its next pause: how long this is, and what comes after it. -/
def part : Nat → Command → Act (Option (Nat × Command))
  | 0, _ => throw .never
  | limit + 1, body => do
    match body.pause?, body with
    | some (some time, rest), _ => return some (time, rest)
    | _, .sequence first second =>
      run limit false first
      part limit second
    | _, _ =>
      run limit false body
      return none

def resume : Nat → Nat → Act Unit
  | 0, _ => throw .never
  | limit + 1, number => do
    let s ← get
    match (s.job? number).map Job.state with
    | some (.asleep wakes body inner) =>
      let begun := wakes.getD s.clock
      let _ ← pass (begun - s.clock)
      modify (·.setJob number (.ended 0))
      changeShell fun _ => inner
      let left ← tryCatch (part limit body) fun
        | .leave _ | .again _ | .back | .exit => return none
        | .broken => do
          setStatus brokenStatus
          return none
        | other => throw other
      match left with
      | some (time, rest) =>
        let inner := (← get).shell
        modify (·.setJob number (.asleep (some (begun + time)) rest inner))
      | none =>
        whole limit (return ())
        let status := (← get).shell.status % 256
        modify (·.setJob number (.ended status))
      changeShell fun _ => s.shell
    | _ => return ()

/-- Goes on with jobs, the one whose time comes first before others, as long as need be. -/
def await : Nat → (Session → Bool) → Act Unit
  | 0, _ => throw .never
  | limit + 1, isDone => do
    let s ← get
    if isDone s then return ()
    match s.firstAsleep? with
    | some (number, _) =>
      resume limit number
      await limit isDone
    | none => return ()

/-- Runs a text line by line. A line that cannot be read ends the shell. -/
def text : Nat → Bool → List Char → Act Unit
  | 0, _, _ => throw .never
  | limit + 1, tested, cs => do
    lines limit tested (Reader.start (cs.filter (· != '\x00')) (← get).nextNumber)

def lines : Nat → Bool → Reader → Act Unit
  | 0, _, _ => throw .never
  | limit + 1, tested, r => do
    let s ← get
    let before := r.rest
    let (result, r) := completeLine?.run.run
      { r with documents := [], nextNumber := s.nextNumber, aliases := s.shell.aliases }
    if s.shell.has 'v' then write 2 (before.take (before.length - r.rest.length))
    modify fun s =>
      { s with documents := r.documents ++ s.documents, nextNumber := r.nextNumber }
    match result with
    | .error f =>
      changeShell fun sh => { sh with line := r.line }
      fail (octets ("Syntax error: " ++ f.message))
    | .ok none => return ()
    | .ok (some c) =>
      run limit tested c
      lines limit tested r

/-- Runs a command that is made of words. -/
def simple : Nat → Bool → Nat → Frame.Assignments → List Word → List Redirection → Act Unit
  | 0, _, _, _, _, _ => throw .never
  | limit + 1, tested, line, assignments, words, redirections => do
    changeShell fun sh => { sh with line := line, substituted := 0 }
    beat
    let outputOf := output limit
    let fields ← Frame.fieldsOf outputOf words
    let descriptors := (← get).shell.descriptors
    let restore : Act Unit := changeShell fun sh => { sh with descriptors := descriptors }
    let known := String.ofList (fields.headD [])
    let isStrict := Builtin.special.contains known
    let kept ← tryCatch (Redirect.all outputOf redirections) fun flow => do
      restore
      throw flow
    match kept, fields with
    | some message, _ =>
      complain message
      setStatus 2
      if isStrict then throw .exit
      restore
    | none, [] =>
      setStatus (← get).shell.substituted
      andAlways (do
        let values ← Frame.assignAll outputOf false assignments
        setStatus (← get).shell.substituted
        Frame.trace outputOf descriptors values []) restore
    | none, name :: arguments =>
      let act : Act Unit :=
        if isStrict then do
          let isHandedOn := known = "exec" ∧ !arguments.isEmpty
          let values ← Frame.assignAll outputOf isHandedOn assignments
          Frame.trace outputOf descriptors values fields
          perform limit tested true known arguments
        else Frame.withVariables outputOf assignments fun values => do
          Frame.trace outputOf descriptors values fields
          match List.lookup known (← get).shell.functions with
          | some body =>
            let outer := (← get).shell.line
            Frame.inFunction arguments (run limit tested body)
            changeShell fun sh => { sh with line := outer }
          | none => perform limit tested false (String.ofList name) arguments
      if known = "exec" ∧ arguments.isEmpty then act else andAlways act restore
    arrivals limit
    Frame.check tested

/-- Does what is to be done on the signals that have arrived. -/
def arrivals : Nat → Act Unit
  | 0 => throw .never
  | limit + 1 => do
    let s ← get
    match s.arrived with
    | [] => return ()
    | signal :: rest =>
      set { s with arrived := rest }
      text limit true ((List.lookup signal s.shell.traps).getD [])
      setStatus s.shell.status
      arrivals limit

/-- Performs a command of the shell, or runs a program. Faults of some commands end the shell if
they are taken strictly. -/
def perform : Nat → Bool → Bool → String → List (List Char) → Act Unit
  | 0, _, _, _, _ => throw .never
  | limit + 1, tested, isStrict, name, arguments => do
    if recursive.contains name then
      special limit tested isStrict name arguments
      let _ ← takeTrouble
    else match Builtin.find? name with
      | some builtin => outcome isStrict name (builtin arguments)
      | none => external limit (octets name) arguments

/-- Commands of the shell that decide what comes next, or run other commands. -/
def special : Nat → Bool → Bool → String → List (List Char) → Act Unit
  | 0, _, _, _, _ => throw .never
  | limit + 1, tested, isStrict, name, arguments => do
    let sh := (← get).shell
    let number := match arguments with
      | [] => some none
      | a :: _ => (Builtin.natural? a).map some
    match name with
    | "eval" =>
      setStatus 0
      let arguments := if arguments.head? = some ['-', '-'] then arguments.tail else arguments
      asCommand (octets name) (text limit tested ([' '].intercalate arguments))
      changeShell fun now => { now with line := sh.line }
    | "." => source limit tested isStrict arguments
    | "exec" => exec limit arguments
    | "command" =>
      let (letters, operands) := commandOptions arguments
      match letters.find? fun c => !(['p', 'v', 'V'].contains c), operands with
      | some ill, _ =>
        outcome isStrict name (return .fault (octets "Illegal option -" ++ [ill]))
      | none, [] => setStatus 0
      | none, inner :: rest =>
        if letters.contains 'v' ∨ letters.contains 'V' then describe (letters.contains 'V') inner
        else perform limit tested false (String.ofList inner) rest
    | "type" =>
      setStatus 0
      let found ← arguments.mapM fun a => do
        describe true a
        return (← get).shell.status
      setStatus (found.foldl (· ||| ·) 0)
    | "hash" => outcome isStrict name (hash arguments)
    | "wait" => outcome isStrict name (wait limit arguments)
    | _ =>
      match number with
      | none => outcome isStrict name (return Builtin.illegalNumber (arguments.headD []))
      | some given =>
        match name with
        | "exit" => exitWith (given.getD sh.status % 256)
        | "return" =>
          setStatus (given.getD sh.status)
          throw .back
        | _ =>
          if given = some 0 then outcome isStrict name (return Builtin.illegalNumber ['0'])
          else
            setStatus 0
            let loops := min (given.getD 1) sh.loops
            if loops ≠ 0 then throw (if name = "break" then .leave loops else .again loops)

/-- Runs a script in this shell. A name without a slash is looked up among the programs. -/
def source : Nat → Bool → Bool → List (List Char) → Act Unit
  | 0, _, _, _ => throw .never
  | _ + 1, _, _, [] => return ()
  | limit + 1, tested, isStrict, given :: _ => do
    let s ← get
    let places ← directories
    let isThere (path : List Char) : Bool := s.view.isFile (pathOf path)
    let found := if given.contains '/' then some given
      else (places.map fun d => octets (Path.join (pathOf d) (pathOf given))).find? isThere
    match found with
    | none => outcome isStrict "." (return .fault (given ++ octets ": not found"))
    | some path =>
      match s.view.read (pathOf path) with
      | .ok bytes =>
        let outer := s.shell
        setStatus 0
        changeShell fun sh => { sh with canReturn := true }
        asCommand path (Frame.untilBack (text limit tested (Octets.ofBytes bytes)))
        changeShell fun sh => { sh with canReturn := outer.canReturn, line := outer.line }
      | .error e =>
        outcome isStrict "." (return .fault (octets "cannot open " ++ path
          ++ octets (": " ++ Redirect.reason e "No such file")))

/-- Waits for commands in the background, for all of them if none is named. -/
def wait : Nat → List (List Char) → Act Outcome
  | 0, _ => throw .never
  | limit + 1, [] => do
    await limit fun s => s.sleeping.isEmpty
    modify (·.hushed)
    return .status 0
  | limit + 1, target :: rest => do
    match Builtin.natural? target with
    | none => return Builtin.illegalNumber target
    | some number =>
      await limit fun s => !(s.sleeping.any (·.1 == number))
      let status ← match ((← get).job? number).map Job.state with
        | some (.ended status) => pure status
        | some (.stopped signal) => do
          sayEnded signal
          pure (128 + signal)
        | _ => pure 127
      modify (·.hushed)
      if rest.isEmpty then return .status status
      wait limit rest

/-- Runs a program as a child of this shell. -/
def external : Nat → List Char → List (List Char) → Act Unit
  | 0, _, _ => throw .never
  | limit + 1, name, arguments => do
    match ← findProgram name arguments with
    | .ok (_, r) =>
      track name
      match ← handedOn limit r with
      | .code n => setStatus n
      | .signal signal => do
        if (← get).isExpired then throw (.killed Signal.terminate)
        sayEnded signal
        setStatus (128 + signal)
      modify (·.hushed)
      await limit fun s => s.due?.isNone
    | .error e => unstarted name e

/-- Runs a program in place of this shell. -/
def exec : Nat → List (List Char) → Act Unit
  | 0, _ => throw .never
  | _ + 1, [] => setStatus 0
  | limit + 1, name :: arguments => do
    match ← findProgram name arguments with
    | .ok (_, r) =>
      changeShell fun sh => { sh with traps := [] }
      match ← handedOn limit r with
      | .code n => exitWith n
      | .signal signal => throw (.killed signal)
    | .error e =>
      asCommand (octets "exec") (unstarted name e)
      throw .exit

/-- Runs a program that sees the variables of this shell in their order. -/
def handedOn : Nat → Runnable → Act ExitStatus
  | 0, _ => throw .never
  | limit + 1, r => do
    let outer := (← get).shell
    changeShell fun sh => { sh with memory := sh.handedOn }
    let status ← start limit r
    changeShell fun _ => outer
    return status

/-- Runs a program with the descriptors and the variables of this shell. -/
def start : Nat → Runnable → Act ExitStatus
  | 0, _ => throw .never
  | limit + 1, r => do
    let outer := (← get).shell
    let starter : Tools.Starter := fun name arguments => do
      match ← findProgram name arguments with
      | .ok (_, r) => return .ok (← start limit r)
      | .error e => return .error e
    let status ← tryCatch (do
        match r.program with
        | "sh" | "dash" | "bash" =>
          changeShell fun sh =>
            sh.inherited (if r.program = "bash" then .wordy else .brief) r.name
          whole limit (script limit r.name r.arguments)
          return .code ((← get).shell.status % 256)
        | program =>
          match Tools.program? program with
          | some act => return .code (← act starter r.name r.arguments)
          | none => return .code 0) fun
      | .killed signal => return .signal signal
      | .broken => return .signal Signal.brokenPipe
      | .exit => return .code ((← get).shell.status % 256)
      | other => throw other
    changeShell fun _ => outer
    return status

/-- What a shell does that has been started with arguments. -/
def script : Nat → List Char → List (List Char) → Act Unit
  | 0, _, _ => throw .never
  | limit + 1, name, arguments => do
    let refuse (message : List Char) : Act Unit := do
      changeShell fun sh => { sh with line := 0 }
      fail message
    match ← Invocation.take ⟨false, false, []⟩ (arguments.length + 1) arguments with
    | .error message => refuse message
    | .ok c =>
      match c.takesCommand, c.operands with
      | true, command :: operands =>
        changeShell fun sh =>
          { sh with name := operands.headD name, arguments := operands.tail }
        text limit false command
      | true, [] => refuse (octets "-c requires an argument")
      | false, path :: operands =>
        if c.readsInput then
          changeShell fun sh => { sh with arguments := c.operands }
          text limit false (← readAll 0)
        else match (← get).view.read (pathOf path) with
          | .ok bytes =>
            changeShell fun sh => { sh with name := path, arguments := operands }
            text limit false (Octets.ofBytes bytes)
          | .error e =>
            refuse (octets "cannot open " ++ path
              ++ octets (": " ++ Redirect.reason e "No such file"))
      | false, [] => text limit false (← readAll 0)

end

/-- Lets those jobs end that still write to what the caller reads. -/
def finish (limit : Nat) : Act Unit :=
  await limit fun s => !(s.jobs.any fun j => match j.state with
    | .asleep _ _ inner => Session.holdsOutput inner
    | _ => false)

end Run

end TestBench.Shell
