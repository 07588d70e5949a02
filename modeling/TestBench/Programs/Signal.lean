/-!
Signals by number, with their names and with what they do to a program that
takes no care of them.
-/
namespace TestBench.Signal

/-- The names of the numbers from one on. -/
def names : List String :=
  ["HUP", "INT", "QUIT", "ILL", "TRAP", "ABRT", "BUS", "FPE", "KILL", "USR1", "SEGV", "USR2",
    "PIPE", "ALRM", "TERM", "STKFLT", "CHLD", "CONT", "STOP", "TSTP", "TTIN", "TTOU", "URG",
    "XCPU", "XFSZ", "VTALRM", "PROF", "WINCH", "IO", "PWR", "SYS"]

def meanings : List String :=
  ["Hangup", "Interrupt", "Quit", "Illegal instruction", "Trace/breakpoint trap", "Aborted",
    "Bus error", "Floating point exception", "Killed", "User defined signal 1",
    "Segmentation fault", "User defined signal 2", "Broken pipe", "Alarm clock", "Terminated",
    "Stack fault", "Child exited", "Continued", "Stopped (signal)", "Stopped",
    "Stopped (tty input)", "Stopped (tty output)", "Urgent I/O condition",
    "CPU time limit exceeded", "File size limit exceeded", "Virtual timer expired",
    "Profiling timer expired", "Window changed", "I/O possible", "Power failure",
    "Bad system call"]

def limit : Nat := 65

def realTime : Nat := 34

def name? (number : Nat) : Option String := if number = 0 then none else names[number - 1]?

/-- The signals without names are counted from the first of them or from the last. -/
def realTime? (name : List Char) : Option Nat :=
  match name with
  | ['R', 'T', 'M', 'I', 'N'] => some realTime
  | ['R', 'T', 'M', 'A', 'X'] => some (limit - 1)
  | 'R' :: 'T' :: 'M' :: 'I' :: 'N' :: '+' :: digits =>
    (String.ofList digits).toNat?.map (realTime + ·)
  | 'R' :: 'T' :: 'M' :: 'A' :: 'X' :: '-' :: digits =>
    (String.ofList digits).toNat?.map (limit - 1 - ·)
  | _ => none

/-- The number of a name, in letters of either case. -/
def number? (name : String) : Option Nat :=
  ((names.findIdx? (· = name.toUpper)).map (· + 1)).or (realTime? name.toUpper.toList)

def interrupt : Nat := 2

def terminate : Nat := 15

def brokenPipe : Nat := 13

inductive Effect where
  | ends
  | stops
  | nothing
  deriving DecidableEq, Repr

def stopping : List String := ["STOP", "TSTP", "TTIN", "TTOU"]

def harmless : List String := ["CHLD", "CONT", "URG", "WINCH"]

/-- What a signal does that a program does not handle. Number zero only asks for the program. -/
def effect (number : Nat) : Effect :=
  match name? number with
  | some name =>
    if stopping.contains name then .stops
    else if harmless.contains name then .nothing
    else .ends
  | none => if number = 0 then .nothing else .ends

def isCertain (number : Nat) : Bool := name? number = some "KILL" || name? number = some "STOP"

/-- The name of a number, even of one that has none of its own. -/
def nameOrNumber (number : Nat) : String :=
  match name? number with
  | some name => if name = "STKFLT" then toString number else name
  | none =>
    let last := limit - 1
    if number < realTime then toString number
    else if number = realTime then "RTMIN"
    else if number = last then "RTMAX"
    else if 2 * number < realTime + limit then "RTMIN+" ++ toString (number - realTime)
    else "RTMAX-" ++ toString (last - number)

def written (number : Nat) : String :=
  match name? number with
  | some name => toString number ++ " (SIG" ++ name ++ ")"
  | none => toString number

def meaning (number : Nat) : String :=
  (meanings[number - 1]?).getD ("Real-time signal " ++ toString (number - realTime))

end TestBench.Signal
