import TestBench.Tools.Pausing

/-!
Commands in the background. One that begins with a pause goes on when this is
over. One that pauses later on is left until somebody waits for it, and all
others are run where they stand.
-/
namespace TestBench.Shell

namespace Command

def pausing : String := "sleep"

/-- How long a command pauses before it does anything else, and what it does then. -/
def pause? : Command → Option (Option Nat × Command)
  | .simple _ [] [w, span] [] =>
    if Word.plain? w = some pausing then
      match (Word.plain? span).bind fun text => Tools.Pausing.span? text.toList with
      | some time => some (time, .nothing)
      | none => none
    else none
  | .sequence first second => (pause? first).map fun (t, rest) => (t, .sequence rest second)
  | .both first second => (pause? first).map fun (t, rest) => (t, .both rest second)
  | .either first second => (pause? first).map fun (t, rest) => (t, .either rest second)
  | .subshell body => pause? body
  | _ => none

/-- Whether a command pauses anywhere, as far as this is seen at once. -/
def pauses : Command → Bool
  | .simple _ _ words _ => (words.head?.bind Word.plain?) == some pausing
  | .redirected _ body _ | .negation body | .background body | .subshell body => pauses body
  | .both first second | .either first second | .sequence first second =>
    pauses first || pauses second
  | .branch condition yes no => pauses condition || pauses yes || pauses no
  | .repeated _ condition body => pauses condition || pauses body
  | .forEach _ _ _ body => pauses body
  | _ => false

end Command

namespace Session

def job? (s : Session) (number : Nat) : Option Job := s.jobs.find? (·.number = number)

def setJob (s : Session) (number : Nat) (state : JobState) : Session :=
  { s with jobs := s.jobs.map fun j => if j.number = number then ⟨number, state⟩ else j }

def addJob (s : Session) (state : JobState) : Session :=
  { s with
    jobs := s.jobs ++ [⟨s.nextProcess, state⟩]
    nextProcess := s.nextProcess + 1 }

/-- The jobs that have not ended, each with the time at which it goes on. Those that have to be
waited for go on when everything else is over. -/
def sleeping (s : Session) : List (Nat × Option Nat) :=
  s.jobs.filterMap fun j => match j.state with
    | .asleep wakes _ _ => some (j.number, wakes)
    | _ => none

/-- Forgets that nobody has been told what signals have ended. -/
def hushed (s : Session) : Session :=
  { s with
    jobs := s.jobs.map fun j => match j.state with
      | .stopped signal => { j with state := .ended (128 + signal) }
      | _ => j }

/-- Whether one time comes before another, where none comes last. -/
def isEarlier : Option Nat → Option Nat → Bool
  | some a, some b => a < b
  | some _, none => true
  | none, _ => false

def firstAsleep? (s : Session) : Option (Nat × Option Nat) :=
  s.sleeping.foldl (fun found j => match found with
    | some best => if isEarlier j.2 best.2 then some j else some best
    | none => some j) none

def due? (s : Session) : Option Nat :=
  match s.firstAsleep? with
  | some (number, some wakes) => if wakes ≤ s.clock then some number else none
  | _ => none

/-- Whether a shell still holds one of the channels that the caller of a script looks at. -/
def holdsOutput (sh : ShellState) : Bool := sh.descriptors.any fun d => d.2 == 1 || d.2 == 2

end Session

end TestBench.Shell
