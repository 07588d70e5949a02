import TestBench.CommandLine.Similarity
import TestBench.Text.Terminal

/-!
Reading command lines. Options have names and letters, operands are known by
their place. A word that may complete an option or a list of operands is
pending until a later word shows that nothing more belongs to it, and is
checked only then; a word that nobody knows is reported before what is pending.
-/
namespace TestBench.CommandLine

/-- What may have been meant by a word that looks like an option. -/
inductive Hint where
  | similarTo (name : String)
  | operand
  deriving DecidableEq, Repr

/-- Why there are no arguments to work with. Requests for help or the version are among them. -/
inductive UsageFault where
  | missingArguments (parameters : List String)
  | unknownArgument (word : String) (hint : Option Hint)
  | missingValue (parameter : String)
  | rejectedValue (value parameter reason : String)
  | unexpectedValue (value parameter : String)
  | repeatedArgument (parameter : String)
  | unknownCommand (word : String)
  | nothingGiven
  | helpRequested
  | versionRequested
  deriving DecidableEq, Repr

namespace UsageFault

def exitCode : UsageFault → Nat
  | .helpRequested | .versionRequested => 0
  | _ => 2

/-- Words are shown without the control sequences in them. -/
def message : UsageFault → String
  | .missingArguments parameters =>
    "the following required arguments were not provided:"
      ++ String.join (parameters.map ("\n  " ++ ·))
  | .unknownArgument word _ => "unexpected argument '" ++ Terminal.plain word ++ "' found"
  | .missingValue parameter =>
    "a value is required for '" ++ parameter ++ "' but none was supplied"
  | .rejectedValue value parameter reason =>
    "invalid value '" ++ Terminal.plain value ++ "' for '" ++ parameter ++ "': " ++ reason
  | .unexpectedValue value parameter =>
    "unexpected value '" ++ Terminal.plain value ++ "' for '" ++ parameter
      ++ "' found; no more were expected"
  | .repeatedArgument parameter =>
    "the argument '" ++ parameter ++ "' cannot be used multiple times"
  | .unknownCommand word => "unrecognized subcommand '" ++ Terminal.plain word ++ "'"
  | .nothingGiven => "a subcommand is required"
  | .helpRequested => "help is requested"
  | .versionRequested => "the version is requested"

def tip? : UsageFault → Option String
  | .unknownArgument _ (some (.similarTo name)) =>
    some ("a similar argument exists: '--" ++ name ++ "'")
  | .unknownArgument word (some .operand) =>
    let shown := Terminal.plain word
    some ("to pass '" ++ shown ++ "' as a value, use '-- " ++ shown ++ "'")
  | _ => none

/-- Whether the right usage is shown too. -/
def showsUsage : UsageFault → Bool
  | .missingValue _ | .rejectedValue .. => false
  | _ => true

/-- The message with a tip, the given usage, and where to learn more. -/
def render (f : UsageFault) (usage : String) : String :=
  let tip := match f.tip? with
    | some tip => "\n\n  tip: " ++ tip
    | none => ""
  let shown := if f.showsUsage then "\n\nUsage: " ++ usage else ""
  "error: " ++ f.message ++ tip ++ shown ++ "\n\nFor more information, try '--help'.\n"

end UsageFault

inductive ParameterKind where
  /-- Present or not. -/
  | switch
  /-- With one value. -/
  | single
  /-- With one value or more each time. -/
  | multiple
  | help
  deriving DecidableEq, Repr

/-- What values have to be like. -/
inductive ValueRule where
  | any
  | nonempty
  | satisfying (accepts : String → Bool) (reason : String)

/-- An option or an operand. The placeholder stands for its value in messages. -/
structure Parameter where
  name : String
  letter : Option Char
  placeholder : String
  kind : ParameterKind
  isRequired : Bool
  rule : ValueRule

namespace Parameter

def takesValue (p : Parameter) : Bool := p.kind = .single ∨ p.kind = .multiple

def help : Parameter := ⟨"help", some 'h', "", .help, false, .any⟩

def writtenOption (p : Parameter) : String :=
  "--" ++ p.name ++ if p.takesValue then " <" ++ p.placeholder ++ ">" else ""

def writtenOperand (p : Parameter) : String :=
  "<" ++ p.placeholder ++ ">" ++ if p.kind = .multiple then "..." else ""

/-- Operands have no name of their own. -/
def written (p : Parameter) : String :=
  if p.name.isEmpty then p.writtenOperand else p.writtenOption

def check (p : Parameter) (value : String) : Except UsageFault Unit :=
  match p.rule with
  | .any => .ok ()
  | .nonempty => if value.isEmpty then .error (.missingValue p.written) else .ok ()
  | .satisfying accepts reason =>
    if accepts value then .ok () else .error (.rejectedValue value p.written reason)

end Parameter

/-- What a program may be given: options in any order, and values for one operand. -/
structure Usage where
  program : String
  options : List Parameter
  operand : Parameter

namespace Usage

def parameters (u : Usage) : List Parameter := u.options ++ [u.operand]

/-- The usage that names what is required and what is used besides. If nothing is, it names the
options in general. -/
def line (u : Usage) (used : List Parameter) : String :=
  let required := u.options.filter (·.isRequired)
  let extra := used.filter fun p => !p.isRequired
  let general := if used.isEmpty then ["[OPTIONS]"] else []
  " ".intercalate ([u.program] ++ general ++ (required ++ extra).map (·.written)
    ++ [u.operand.written])

/-- What a fault looks like to a reader. -/
def explain (u : Usage) (f : UsageFault) : String :=
  let used := match f with
    | .unknownArgument _ (some (.similarTo name)) => u.options.filter (·.name == name)
    | .unexpectedValue _ parameter => u.options.filter (·.written == parameter)
    | .missingArguments _ => [u.operand]
    | _ => []
  f.render (u.line used)

end Usage

/-- A parameter with the values that stood with it. -/
structure Given where
  parameter : Parameter
  values : List String

structure Reading where
  given : List Given
  pending : Option Given
  operandsOnly : Bool

namespace Reading

def start : Reading := ⟨[], none, false⟩

def has (r : Reading) (p : Parameter) : Bool := r.given.any (·.parameter.name == p.name)

/-- All values of a parameter, in their order. -/
def valuesOf (r : Reading) (p : Parameter) : List String :=
  (r.given.filter (·.parameter.name == p.name)).flatMap (·.values)

/-- Takes what is complete, if it is as it has to be. -/
def accept (r : Reading) (g : Given) : Except UsageFault Reading := do
  if g.parameter.takesValue ∧ g.values = [] then throw (.missingValue g.parameter.written)
  if g.parameter.kind ≠ .multiple ∧ r.has g.parameter then
    throw (.repeatedArgument g.parameter.written)
  g.values.forM g.parameter.check
  return { r with given := r.given ++ [g] }

def settle (r : Reading) : Except UsageFault Reading :=
  match r.pending with
  | none => .ok r
  | some g => { r with pending := none }.accept g

/-- A parameter without a value, or with one that is attached to it. -/
def useAtOnce (r : Reading) (p : Parameter) (values : List String) :
    Except UsageFault Reading := do
  let r ← r.settle
  if p.kind = .help then throw .helpRequested
  r.accept ⟨p, values⟩

/-- An option whose value is the next word. -/
def await (r : Reading) (p : Parameter) : Except UsageFault Reading := do
  return { ← r.settle with pending := some ⟨p, []⟩ }

def useOption (r : Reading) (p : Parameter) (attached : Option String) :
    Except UsageFault Reading :=
  match p.takesValue, attached with
  | true, some value => r.useAtOnce p [value]
  | true, none => r.await p
  | false, some value => .error (.unexpectedValue value p.written)
  | false, none => r.useAtOnce p []

/-- The operand whose values a further word joins. -/
def openOperand? (u : Usage) (r : Reading) : Option Given :=
  r.pending.filter fun g => g.parameter.name == u.operand.name && u.operand.kind == .multiple

/-- Whether there is no place for a further operand. -/
def isFull (u : Usage) (r : Reading) : Bool :=
  u.operand.kind == .single
    && (r.has u.operand || r.pending.any (·.parameter.name == u.operand.name))

def readOperand (u : Usage) (r : Reading) (word : String) : Except UsageFault Reading :=
  match r.openOperand? u with
  | some g => .ok { r with pending := some { g with values := g.values ++ [word] } }
  | none =>
    if r.isFull u then .error (.unknownArgument word none)
    else do return { ← r.settle with pending := some ⟨u.operand, [word]⟩ }

/-- Options by their letters. The rest of the word is the value of the first that takes one. -/
def readLetters (u : Usage) : List Char → Reading → Except UsageFault Reading
  | [], r => .ok r
  | c :: rest, r =>
    match u.options.find? (·.letter == some c) with
    | none => .error (.unknownArgument (String.ofList ['-', c]) (some .operand))
    | some p =>
      if p.takesValue then
        let value := if rest.head? = some '=' then rest.tail else rest
        r.useOption p (if rest = [] then none else some (String.ofList value))
      else do readLetters u rest (← r.useOption p none)

/-- The name of an option and the value behind the first equals sign. -/
def splitName (cs : List Char) : String × Option String :=
  match cs.dropWhile (· != '=') with
  | [] => (String.ofList cs, none)
  | _ :: value => (String.ofList (cs.takeWhile (· != '=')), some (String.ofList value))

/-- An unknown name may be a slip of another one. -/
def unknownName (u : Usage) (name : String) : UsageFault :=
  let hint := match mostSimilar? name (u.options.map (·.name)) with
    | some similar => .similarTo similar
    | none => .operand
  .unknownArgument ("--" ++ name) (some hint)

def readName (u : Usage) (cs : List Char) (r : Reading) : Except UsageFault Reading :=
  let (name, attached) := splitName cs
  match u.options.find? (·.name == name) with
  | none => .error (unknownName u name)
  | some p => r.useOption p attached

/-- A word that looks like no option belongs to an option that waits for it, or is an operand. -/
def readValue (u : Usage) (r : Reading) (word : String) : Except UsageFault Reading :=
  match r.pending with
  | some ⟨p, []⟩ => .ok { r with pending := some ⟨p, [word]⟩ }
  | _ => r.readOperand u word

def readWord (u : Usage) (r : Reading) (word : String) : Except UsageFault Reading :=
  if r.operandsOnly then r.readOperand u word
  else match word.toList with
    | ['-', '-'] => .ok { r with operandsOnly := true }
    | '-' :: '-' :: rest => r.readName u rest
    | '-' :: c :: rest => r.readLetters u (c :: rest)
    | _ => r.readValue u word

end Reading

/-- What a command line gives, if everything that is required is there. -/
def Usage.read (u : Usage) (words : List String) : Except UsageFault Reading := do
  let r ← (← words.foldlM (Reading.readWord u) .start).settle
  match u.parameters.filter fun p => p.isRequired && !r.has p with
  | [] => return r
  | missing => throw (.missingArguments (missing.map (·.written)))

end TestBench.CommandLine
