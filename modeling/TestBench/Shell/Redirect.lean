import TestBench.Shell.Builtins

/-!
Where the descriptors of a command lead, and shells inside other shells.
-/
namespace TestBench.Shell

namespace Redirect

/-- What is said about a file that cannot be opened. -/
def reason (e : FileError) (missing : String) : String :=
  if e = .notFound ∨ e = .notDirectory then missing else e.reason

def channelOf : FileEntry → Channel
  | .file n => .file n 0 false
  | .program _ => .given (Octets.ofBytes Files.programBytes)
  | .device kind => .device kind
  | .directory _ => .directory
  | .link _ => .given []

def openForReading (descriptor : Nat) (path : List Char) : Act (Option (List Char)) := do
  match (← get).view.find (pathOf path) with
  | .ok e =>
    modify (·.openChannel descriptor (channelOf e))
    return none
  | .error e =>
    return some (octets "cannot open " ++ path ++ octets (": " ++ reason e "No such file"))

/-- How a file that is there or not is opened for writing. -/
structure Keeping where
  /-- Whether what is in the file stays. -/
  keeps : Bool
  appends : Bool
  /-- Whether the file has to be new. -/
  isCareful : Bool
  deriving DecidableEq, Repr

/-- A path that ends with a slash cannot be that of a file. -/
def writable (files : Files) (path : String) : Except FileError (Option FileEntry × Location) := do
  if path.toList.getLast? = some '/' then throw .isDirectory
  let place ← files.locate path
  return (files.entry? place, place)

/-- Opens a file to write to it, which makes it empty unless it is kept. -/
def openForWriting (descriptor : Nat) (k : Keeping) (path : List Char) :
    Act (Option (List Char)) := do
  let files := (← get).view
  let refused (e : FileError) : Option (List Char) :=
    some (octets "cannot create " ++ path
      ++ octets (": " ++ reason e "Directory nonexistent"))
  match writable files (pathOf path) with
  | .error e => return refused e
  | .ok (some (.file n), _) =>
    if k.isCareful then return refused .alreadyThere
    unless k.keeps do modify (·.update (files.rewrite n []))
    modify (·.openChannel descriptor (.file n 0 k.appends))
    return none
  | .ok (some (.device kind), _) =>
    modify (·.openChannel descriptor (.device kind))
    return none
  | .ok (some (.directory _), _) => return refused .isDirectory
  | .ok (some _, _) => return refused .permissionDenied
  | .ok (none, place) =>
    modify fun s => (s.update (files.create place (files.allowed 0o666) [])).openChannel
      descriptor (.file files.nextNumber 0 k.appends)
    return none

def copyDescriptor (descriptor : Nat) (source : List Char) : Act (Option (List Char)) := do
  if source = ['-'] then
    modify (·.disconnect descriptor)
    return none
  else match Builtin.natural? source with
    | none =>
      changeShell fun sh => { sh with line := sh.line + 1 }
      fail (octets "Syntax error: Bad fd number")
    | some n => match (← get).channel? n with
      | some (number, _) =>
        modify (·.connect descriptor number)
        return none
      | none => return some (source ++ octets ": Bad file descriptor")

/-- The descriptors that have paths of their own. -/
def standardPaths : List (String × Nat) :=
  [("/dev/stdin", 0), ("/dev/stdout", 1), ("/dev/stderr", 2), ("/dev/fd/0", 0), ("/dev/fd/1", 1),
    ("/dev/fd/2", 2)]

def openPath (descriptor : Nat) (opening : Opening) (path : List Char) :
    Act (Option (List Char)) :=
  match List.lookup (pathOf path) standardPaths, opening with
  | _, .copying => copyDescriptor descriptor path
  | some n, _ => copyDescriptor descriptor (toString n).toList
  | none, .writing => do
    openForWriting descriptor ⟨false, false, (← get).shell.has 'C'⟩ path
  | none, .overwriting => openForWriting descriptor ⟨false, false, false⟩ path
  | none, .appending => openForWriting descriptor ⟨true, true, false⟩ path
  | none, .updating => openForWriting descriptor ⟨true, false, false⟩ path
  | none, _ => openForReading descriptor path

/-- Opens what redirections name, one after the other, up to the first that cannot be opened. -/
def all (outputOf : OutputOf) : List Redirection → Act (Option (List Char))
  | [] => return none
  | .redirect descriptor opening target :: rest => do
    let fault ← match opening with
      | .document number =>
        let w := (List.lookup number (← get).documents).getD []
        let text ← Expansion.text outputOf w
        modify (·.openChannel descriptor (.given text))
        pure none
      | _ => openPath descriptor opening (← Expansion.text outputOf target)
    match fault with
    | some message => return some message
    | none => all outputOf rest

/-- Does something between redirections and their end. If one of them cannot be made, what is
wrong is said. -/
def around (outputOf : OutputOf) (rs : List Redirection) (act : Act Unit) : Act Unit := do
  let before := (← get).shell.descriptors
  andAlways (do
    match ← all outputOf rs with
    | none => act
    | some message =>
      complain message
      setStatus 2)
    (changeShell fun sh => { sh with descriptors := before })

end Redirect

/-- Whether a command that has been left in this way has ended its shell only. -/
def Flow.endsShell : Flow → Bool
  | .killed _ | .starved | .never => false
  | _ => true

/-- The status of a shell in whose output nobody is interested any more. -/
def brokenStatus : Nat := 141

/-- Acts in a shell that begins as a copy of this one, and keeps its status only. -/
def inSubshell (act : Act Unit) : Act Unit := do
  let outer := (← get).shell
  changeShell fun sh => { sh with traps := sh.traps.filter (·.2.isEmpty) }
  andAlways (tryCatch act fun
    | .broken => setStatus brokenStatus
    | flow => if flow.endsShell then return () else throw flow)
    (changeShell fun sh => { outer with status := sh.status % 256 })

/-- What something prints on the way into a pipe with so much room, and whether that is not all. -/
def piped (room : Option Nat) (act : Act Unit) : Act (List Char × Bool) := do
  let s ← get
  let number := s.channels.length
  let outer := s.shell.descriptors
  modify (·.openChannel 1 (.sink [] 0 room))
  let isShort ← tryCatch (do
      andAlways act (changeShell fun sh => { sh with descriptors := outer })
      return false) fun
    | .starved => return true
    | other => throw other
  match (← get).channels[number]? with
  | some (.sink pieces size room) =>
    return (Channel.written (.sink pieces size room), isShort || room.any (· < size))
  | _ => return ([], isShort)

def captured (act : Act Unit) : Act (List Char) := do
  let (text, isCut) ← piped none act
  if isCut then throw .starved
  return text

end TestBench.Shell
