import TestBench.Shell.Builtins

/-!
How a shell is called: with options of its own, and with a script that is a
command, a file or what the shell reads.
-/
namespace TestBench.Shell

structure Invocation where
  takesCommand : Bool
  readsInput : Bool
  operands : List (List Char)
  deriving DecidableEq, Repr

namespace Invocation

/-- The letters that say where the script comes from, or nothing that matters here. -/
def ownLetters : List Char := ['c', 's', 'l']

/-- Takes the options of a shell from its arguments. -/
def take (c : Invocation) : Nat → List (List Char) → Act (Except (List Char) Invocation)
  | 0, rest => return .ok { c with operands := rest }
  | _, [] => return .ok { c with operands := [] }
  | _, ['-', '-'] :: rest | _, ['-'] :: rest => return .ok { c with operands := rest }
  | limit + 1, (sign :: letters) :: rest => do
    if sign = '-' ∨ sign = '+' then
      let c :=
        { c with
          takesCommand := c.takesCommand || letters.contains 'c'
          readsInput := c.readsInput || letters.contains 's' }
      let kept := letters.filter fun l => !ownLetters.contains l
      match ← Builtin.takeOptions (sign = '-') kept rest with
      | .ok rest => c.take limit rest
      | .error ill => return .error (octets "Illegal option " ++ ill)
    else return .ok { c with operands := (sign :: letters) :: rest }
  | _, rest => return .ok { c with operands := rest }

end Invocation

/-- The variables that a shell sets when it begins, unless it has been given others. -/
def initialVariables : List (String × String) :=
  [("PATH", "/usr/local/sbin:/usr/local/bin:/usr/sbin:/usr/bin:/sbin:/bin"), ("PS1", "# "),
    ("PS2", "> "), ("PS4", "+ "), ("OPTIND", "1"), ("PPID", "1"), ("IFS", " \t\n")]

/-- A shell that another program starts. It sees what is handed on to it. -/
def ShellState.inherited (outer : ShellState) (dialect : Dialect) (name : List Char) :
    ShellState :=
  let directory := octets ("/" ++ "/".intercalate outer.directory)
  let own := initialVariables.filter fun (n, _) => (outer.known? n).isNone
  let memory := outer.environment
    ++ own.map fun (n, value) => (n, ⟨some (octets value), false, false⟩)
  let begun := ShellState.start name [] memory outer.directory outer.descriptors
  { begun.setVariable "PWD" ⟨some directory, true, false⟩ with
    dialect := dialect
    mask := outer.mask
    traps := outer.traps.filter (·.2.isEmpty) }

end TestBench.Shell
