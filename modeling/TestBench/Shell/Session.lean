import TestBench.Programs.Basic
import TestBench.Shell.Command
import TestBench.Text.Octets

/-!
What commands act upon. Files and channels are shared by all commands; variables,
descriptors and the rest belong to a shell, and a shell inside another one begins
with those of the outer one. Texts are kept as single bytes.
-/
namespace TestBench.Shell

/-- What a descriptor reads from or writes to. -/
inductive Channel where
  /-- A text that has been given. What has given it may have been stopped before its end. -/
  | source (rest : List Char) (isCut : Bool)
  /-- What has been written, the last piece first, with its size and with the room for it. -/
  | sink (pieces : List (List Char)) (size : Nat) (room : Option Nat)
  | file (number : Nat) (offset : Nat) (appends : Bool)
  | device (kind : Device)
  | directory
  deriving DecidableEq, Repr

namespace Channel

/-- A channel on which a text is given. -/
def given (text : List Char) : Channel := .source text false

def collector : Channel := .sink [] 0 none

def written : Channel → List Char
  | .sink pieces _ _ => pieces.reverse.flatten
  | _ => []

end Channel

structure Variable where
  value : Option (List Char)
  isExported : Bool
  isFixed : Bool
  deriving DecidableEq, Repr

inductive Dialect where
  | brief
  | wordy
  deriving DecidableEq, Repr

structure ShellState where
  dialect : Dialect
  /-- How the shell was called. -/
  name : List Char
  arguments : List (List Char)
  memory : List (String × Variable)
  functions : List (String × Command)
  /-- What the variables of a function stand in front of. -/
  covered : List (String × Option Variable)
  options : List Char
  status : Nat
  line : Nat
  /-- The command of the shell that is being performed, if it is one. -/
  command : List Char
  /-- What is done on a signal. Number zero stands for the end of the shell. -/
  traps : List (Nat × List Char)
  directory : Location
  descriptors : List (Nat × Nat)
  /-- What new files are not allowed. -/
  mask : Nat
  aliases : List (String × List Char)
  /-- The programs that have been found already. -/
  tracked : List (List Char)
  /-- Which argument options are taken from next, and from which of its letters on. -/
  optionIndex : Nat
  optionOffset : Option Nat
  /-- How many loops surround what is done. -/
  loops : Nat
  /-- Whether a function or another script is being run. -/
  canReturn : Bool
  /-- The number of the last command in the background. -/
  background : Option Nat
  /-- The status of the last command whose output has become part of a word. -/
  substituted : Nat

/-- A command in the background: what it has ended with, or what it goes on with in which shell. -/
inductive JobState where
  | ended (status : Nat)
  /-- A signal has ended it, which nobody has been told yet. -/
  | stopped (signal : Nat)
  | asleep (wakes : Option Nat) (body : Command) (shell : ShellState)

structure Job where
  number : Nat
  state : JobState

structure Session where
  files : Files
  channels : List Channel
  documents : List (Nat × Word)
  nextNumber : Nat
  /-- Signals that have arrived and are to be handled. -/
  arrived : List Nat
  jobs : List Job
  nextProcess : Nat
  /-- Why something could not be written, since this was looked at last. -/
  trouble : Option FileError
  /-- How many microseconds have passed. -/
  clock : Nat
  /-- When the programs that run now are stopped. -/
  deadline : Option Nat
  shell : ShellState

inductive Flow where
  | leave (loops : Nat)
  | again (loops : Nat)
  | back
  | exit
  | killed (signal : Nat)
  /-- Nobody reads what is written any more. -/
  | broken
  /-- More is to be read than has been given so far. -/
  | starved
  /-- Nothing comes after this. -/
  | never

/-- What a command does, unless it is left. -/
abbrev Act (α : Type) := ExceptT Flow (StateM Session) α

namespace Session

/-- The number that a script knows itself by. -/
def processNumber : Nat := 100

def inShell (s : Session) (f : ShellState → ShellState) : Session := { s with shell := f s.shell }

def channel? (s : Session) (descriptor : Nat) : Option (Nat × Channel) := do
  let number ← List.lookup descriptor s.shell.descriptors
  let channel ← s.channels[number]?
  return (number, channel)

def setChannel (s : Session) (number : Nat) (c : Channel) : Session :=
  { s with channels := s.channels.set number c }

def contentOf (s : Session) (number : Nat) : List Char := Octets.ofBytes (s.files.bytesOf number)

/-- A text with another one written over it at an offset. -/
def overwrite (old : List Char) (offset : Nat) (new : List Char) : List Char :=
  old.take offset ++ List.replicate (offset - old.length) '\x00' ++ new
    ++ old.drop (offset + new.length)

/-- How many zero bytes are there when somebody reads them. -/
def zerosAhead : Nat := 1 <<< 17

/-- The text that is still to be read, and whether there may be more of it later. -/
def unread (s : Session) (descriptor : Nat) : List Char × Bool :=
  match s.channel? descriptor with
  | some (_, .source rest isCut) => (rest, isCut)
  | some (_, .file number offset _) => ((s.contentOf number).drop offset, false)
  | some (_, .device .zeros) | some (_, .device .full) =>
    (List.replicate zerosAhead '\x00', true)
  | _ => ([], false)

/-- Whether what is read from a descriptor stays where it is. -/
def isSeekable (s : Session) (descriptor : Nat) : Bool :=
  match s.channel? descriptor with
  | some (_, .file ..) => true
  | _ => false

/-- Goes past some of the text that is still to be read. -/
def consume (s : Session) (descriptor count : Nat) : Session :=
  match s.channel? descriptor with
  | some (number, .source rest isCut) => s.setChannel number (.source (rest.drop count) isCut)
  | some (number, .file file offset appends) =>
    s.setChannel number (.file file (offset + count) appends)
  | _ => s

def connect (s : Session) (descriptor number : Nat) : Session :=
  s.inShell fun sh =>
    { sh with
      descriptors := (descriptor, number) :: sh.descriptors.filter (·.1 != descriptor) }

def disconnect (s : Session) (descriptor : Nat) : Session :=
  s.inShell fun sh => { sh with descriptors := sh.descriptors.filter (·.1 != descriptor) }

/-- Adds a channel and lets a descriptor refer to it. -/
def openChannel (s : Session) (descriptor : Nat) (c : Channel) : Session :=
  { s with channels := s.channels ++ [c] }.connect descriptor s.channels.length

/-- The files as they are reached from the shell. -/
def view (s : Session) : Files :=
  { s.files with workingDirectory := s.shell.directory, mask := s.shell.mask }

/-- Changes files as they are reached from the shell. -/
def update (s : Session) (files : Files) : Session :=
  { s with
    files :=
      { files with workingDirectory := s.files.workingDirectory, mask := s.files.mask } }

end Session

namespace ShellState

def known? (sh : ShellState) (name : String) : Option Variable := List.lookup name sh.memory

/-- Keeps a variable, behind all others if it is new. -/
def setVariable (sh : ShellState) (name : String) (v : Variable) : ShellState :=
  { sh with memory := put sh.memory }
where
  put : List (String × Variable) → List (String × Variable)
    | [] => [(name, v)]
    | old :: rest => if old.1 = name then (name, v) :: rest else old :: put rest

def has (sh : ShellState) (option : Char) : Bool := sh.options.contains option

/-- The characters at which the values of parameters are split. -/
def separators (sh : ShellState) : List Char :=
  match sh.known? "IFS" with
  | some v => v.value.getD []
  | none => [' ', '\t', '\n']

def joint (sh : ShellState) : List Char := sh.separators.take 1

/-- The value of a parameter, if it has one. -/
def value? (sh : ShellState) (name : String) : Option (List Char) :=
  match name with
  | "#" => some (toString sh.arguments.length).toList
  | "?" => some (toString sh.status).toList
  | "$" => some (toString Session.processNumber).toList
  | "-" => some sh.options
  | "!" => sh.background.map fun n => (toString n).toList
  | "0" => some sh.name
  | "@" | "*" => some (sh.joint.intercalate sh.arguments)
  | _ =>
    if name.toList.all (·.isDigit) then sh.arguments[name.toNat?.getD 0 - 1]?
    else (sh.known? name).bind (·.value)

def mark (sh : ShellState) (name : String) : ShellState :=
  match sh.known? name with
  | some v => sh.setVariable name { v with isExported := true }
  | none => sh

def unset (sh : ShellState) (name : String) : ShellState :=
  { sh with memory := sh.memory.filter (·.1 != name) }

def environment (sh : ShellState) : List (String × Variable) :=
  sh.memory.filter fun (_, v) => v.isExported && v.value.isSome

def listingPlace (name : String) : Nat :=
  match name.toList with
  | [] => 0
  | c :: _ => (16 * c.toNat + (name.toList.foldl (fun n d => n + d.toNat) 0)) % 39

/-- The variables that other programs see, in the order in which they are told. -/
def handedOn (sh : ShellState) : List (String × Variable) :=
  sh.environment.mergeSort fun a b => listingPlace a.1 ≤ listingPlace b.1

end ShellState

/-- A shell that begins, with the variables that it is given. -/
def ShellState.start (name : List Char) (arguments : List (List Char))
    (memory : List (String × Variable)) (directory : Location)
    (descriptors : List (Nat × Nat)) : ShellState :=
  { dialect := .brief, name := name, arguments := arguments, memory := memory, functions := []
    covered := [], options := [], status := 0, line := 1, command := [], traps := []
    directory := directory, descriptors := descriptors, mask := 0o022, aliases := [], tracked := []
    optionIndex := 1, optionOffset := none, loops := 0, canReturn := false, background := none
    substituted := 0 }

def changeShell (f : ShellState → ShellState) : Act Unit := modify (·.inShell f)

def setStatus (n : Nat) : Act Unit := changeShell fun sh => { sh with status := n }

def note (e : FileError) : Act Unit := modify fun s => { s with trouble := s.trouble.or (some e) }

/-- Why something could not be written, if anything could not. -/
def takeTrouble : Act (Option FileError) := do
  let s ← get
  set { s with trouble := none }
  return s.trouble

/-- Writes to a descriptor. Where there is no room for a text, nobody reads what has been written
before. -/
def write (descriptor : Nat) (text : List Char) : Act Unit := do
  if text.isEmpty then return ()
  let s ← get
  match s.channel? descriptor with
  | some (number, .sink pieces size room) =>
    let size := size + text.length
    set (s.setChannel number (.sink (text :: pieces) size room))
    if room.any (· < size) then throw .broken
  | some (number, .file file offset appends) =>
    let old := s.contentOf file
    let start := if appends then old.length else offset
    let new := Octets.toBytes (Session.overwrite old start text)
    set { s.setChannel number (.file file (start + text.length) appends) with
      files := s.files.rewrite file new }
  | some (_, .device .full) => if descriptor = 1 then note .noSpace
  | some (_, .device _) => return ()
  | some (_, .source ..) | some (_, .directory) | none =>
    if descriptor = 1 then note .badDescriptor

def print (text : List Char) : Act Unit := write 1 text

/-- What can be read, and whether there may be more of it. -/
def lookAhead (descriptor : Nat) : Act (List Char × Bool) := do return (← get).unread descriptor

def consume (descriptor count : Nat) : Act Unit := modify (·.consume descriptor count)

def readAll (descriptor : Nat) : Act (List Char) := do
  let (text, isCut) ← lookAhead descriptor
  if isCut then throw .starved
  consume descriptor text.length
  return text

def say (text : List Char) : Act Unit := write 2 (text ++ ['\n'])

def octets (s : String) : List Char := Octets.ofString s

/-- Does something at the end of another act, however it ends. -/
def andAlways {α : Type} (act : Act α) (after : Act Unit) : Act α := do
  let a ← tryCatch act fun flow => do
    after
    throw flow
  after
  return a

/-- Acts as a command of the shell, by its name. -/
def asCommand {α : Type} (name : List Char) (act : Act α) : Act α := do
  let outer := (← get).shell.command
  changeShell fun sh => { sh with command := name }
  andAlways act (changeShell fun sh => { sh with command := outer })

def complain (text : List Char) : Act Unit := do
  let sh := (← get).shell
  let performed := if sh.command.isEmpty then [] else sh.command ++ octets ": "
  let place := match sh.dialect with
    | .brief => ": " ++ toString sh.line ++ ": "
    | .wordy => ": line " ++ toString sh.line ++ ": "
  say (sh.name ++ octets place ++ performed ++ text)

def secondParts : Nat := 1000000

/-- Lets time pass, as far as there is any. Whether there was enough of it. -/
def pass (time : Nat) : Act Bool := do
  let s ← get
  let goal := s.clock + time
  let stop := match s.deadline with
    | some d => min d goal
    | none => goal
  let seconds := stop / secondParts - s.clock / secondParts
  set { s with clock := stop, files := { s.files with now := s.files.now + seconds } }
  return stop = goal

/-- Whether those programs are to be stopped that run now. -/
def Session.isExpired (s : Session) : Bool := s.deadline.any (· ≤ s.clock)

def exitWith {α : Type} (status : Nat) : Act α := do
  setStatus status
  throw .exit

/-- Says what is wrong and leaves the shell. -/
def fail {α : Type} (text : List Char) : Act α := do
  complain text
  exitWith 2

/-- The variable that says which argument options are taken from next. -/
def optionVariable : String := "OPTIND"

/-- Begins with the options of the first argument again. -/
def ShellState.withFirstOption (sh : ShellState) : ShellState :=
  { sh with optionIndex := 1, optionOffset := none }

def decimal (cs : List Char) : Nat := cs.foldl (fun n d => 10 * n + (d.toNat - '0'.toNat)) 0

/-- Gives a variable a value that is seen by the commands that it concerns. -/
def ShellState.assign (sh : ShellState) (name : String) (value : List Char) : ShellState :=
  let sh := match sh.known? name with
    | some v => sh.setVariable name { v with value := some value }
    | none => sh.setVariable name ⟨some value, sh.has 'a', false⟩
  if name = optionVariable then
    let n := decimal (value.takeWhile (·.isDigit))
    { sh with optionIndex := max n 1, optionOffset := none }
  else sh

def assign (name : String) (value : List Char) : Act Unit := do
  if ((← get).shell.known? name).any (·.isFixed) then fail (octets (name ++ ": is read only"))
  else changeShell (·.assign name value)

/-- A path as a text that files are reached by. -/
def pathOf (cs : List Char) : String := Octets.toString cs

end TestBench.Shell
