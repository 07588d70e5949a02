import TestBench.Files.Basic
import TestBench.Programs.Signal

/-!
Programs as their callers see them: started in a directory with arguments, they
leave some output behind and end with a status.
-/
namespace TestBench

inductive ExitStatus where
  | code (n : Nat)
  | signal (number : Nat)
  deriving DecidableEq, Repr

namespace ExitStatus

def isSuccess (s : ExitStatus) : Bool := s = .code 0

def written : ExitStatus → String
  | .code n => "exit status: " ++ toString n
  | .signal number => "signal: " ++ Signal.written number

end ExitStatus

structure ProgramOutput where
  stdout : Bytes
  stderr : Bytes
  status : ExitStatus
  deriving DecidableEq, Repr

/-- How programs are started: in a directory, by a path, with arguments. There may be no program
to start, and a program that does not end has no output. -/
abbrev Launch :=
  Files → String → String → List String → Files × Option (Except FileError ProgramOutput)

end TestBench
