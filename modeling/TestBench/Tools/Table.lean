import TestBench.Tools.Attributes
import TestBench.Tools.Columns
import TestBench.Tools.Compare
import TestBench.Tools.Copying
import TestBench.Tools.Expression
import TestBench.Tools.Grep
import TestBench.Tools.Listing
import TestBench.Tools.Pausing
import TestBench.Tools.Plain
import TestBench.Tools.Sed.Editor
import TestBench.Tools.Sequence
import TestBench.Tools.Sorting
import TestBench.Tools.Starting
import TestBench.Tools.Streams
import TestBench.Tools.Translate

/-!
The programs that a system comes with, by their names: those that a script has at
hand which stands in for a runner of tests.
-/
namespace TestBench.Tools

open Shell

/-- What is done with a name and with arguments. -/
abbrev Program := Starter → List Char → List (List Char) → Act Nat

namespace Program

def ofTool (t : Tool) : Program := t.run

def alone (act : Plain.Act) : Program := fun _ => act

def answering (status : Nat) : Program := fun _ _ _ => return status

end Program

def programs : List (String × Program) :=
  ([("basename", Naming.basenameTool), ("cat", Cat.tool), ("cmp", Cmp.tool),
    ("cp", Copying.tool), ("cut", Cut.tool), ("dirname", Naming.dirnameTool),
    ("env", Starting.Environment.tool), ("grep", Grep.tool), ("head", Head.tool),
    ("ls", Listing.tool), ("mkdir", Making.tool), ("mv", Moving.tool),
    ("rm", Removing.rmTool), ("rmdir", Removing.rmdirTool), ("sed", Sed.tool),
    ("seq", Sequence.tool), ("sha256sum", Checksums.tool), ("sleep", Pausing.tool),
    ("sort", Sort.tool), ("tail", Tail.tool), ("tee", Tee.tool), ("touch", Touching.tool),
    ("tr", Translate.tool), ("uniq", Uniq.tool), ("wc", WordCount.tool)].map
      fun (name, t) => (name, Program.ofTool t))
  ++ [("true", Program.answering 0), ("false", Program.answering 1),
    ("echo", Program.alone Plain.echo), ("printf", Program.alone Plain.printf),
    ("test", Program.alone Plain.test), ("[", Program.alone Plain.bracket),
    ("expr", fun _ name arguments => do
      Expression.run (isWide (← get).shell) name arguments),
    ("chmod", fun start name arguments =>
      Granting.base.run start name (Granting.prepared arguments))]

def program? (name : String) : Option Program := List.lookup name programs

/-- The names of all programs, with those that are shells. -/
def programNames : List String := programs.map (·.1) ++ ["sh", "dash", "bash"]

end TestBench.Tools
