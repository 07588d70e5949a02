import TestBench.Programs.Basic
import TestBench.Tools.Quoting

/-!
How programs read their arguments. Options are letters after a dash, or longer
names after two, and some of them have values; everything else is an operand.
-/
namespace TestBench.Tools

open Shell

/-- Starts a program by its name with arguments, or says why it cannot be started. -/
abbrev Starter := List Char → List (List Char) → Act (Except FileError ExitStatus)

/-- How a program has been called: by which name, with which options, each with its value, and
with which operands. -/
structure Call where
  name : List Char
  options : List (String × List Char)
  operands : List (List Char)
  isWide : Bool

namespace Call

def has (c : Call) (option : String) : Bool := c.options.any (·.1 == option)

/-- The value that an option has been given last. -/
def value? (c : Call) (option : String) : Option (List Char) :=
  (c.options.reverse.find? (·.1 == option)).map (·.2)

/-- All values that an option has been given. -/
def values (c : Call) (option : String) : List (List Char) :=
  (c.options.filter (·.1 == option)).map (·.2)

/-- The last one of some options that has been given. -/
def last? (c : Call) (options : List String) : Option String :=
  (c.options.reverse.find? fun (o, _) => options.contains o).map (·.1)

def complain (c : Call) (message : List Char) : Act Unit := say (c.name ++ octets ": " ++ message)

/-- A name as it is, unless a shell would not read it back. -/
def shown (cs : List Char) : List Char := Showing.plain.render cs

def marked (cs : List Char) : List Char := Showing.marked.render cs

def cited (c : Call) (cs : List Char) : List Char := (Showing.cited c.isWide).render cs

def about (c : Call) (path : List Char) (e : FileError) : Act Unit :=
  c.complain (shown path ++ octets (": " ++ e.reason))

/-- Says what could not be done to a file. -/
def failed (c : Call) (what : String) (path : List Char) (e : FileError) : Act Unit :=
  c.complain (octets what ++ ' ' :: marked path ++ octets (": " ++ e.reason))

def helpLine (c : Call) : List Char :=
  octets "Try '" ++ c.name ++ octets " --help' for more information."

/-- Says where more is to be found about a program. -/
def sayHelp (c : Call) : Act Unit := say c.helpLine

/-- Says how a program has been used in a wrong way. -/
def misused (c : Call) (status : Nat) (message : List Char) : Act Nat := do
  c.complain message
  c.sayHelp
  return status

end Call

def standardInput : List Char := ['-']

/-- What can be read at a path, and whether there may be more of it. A dash stands for what is
given to the program. -/
def look (path : List Char) : Act (Except FileError (List Char × Bool)) := do
  let s ← get
  if path = standardInput ∨ path = octets "/dev/stdin" then
    match s.channel? 0 with
    | none => return .error .badDescriptor
    | some (_, .directory) => return .error .isDirectory
    | some (_, .sink ..) => return .error .badDescriptor
    | some _ => return .ok (s.unread 0)
  else match s.view.find (pathOf path) with
    | .ok (.device .empty) => return .ok ([], false)
    | .ok (.device _) => return .ok (List.replicate Session.zerosAhead '\x00', true)
    | _ => return (s.view.read (pathOf path)).map fun bytes => (Octets.ofBytes bytes, false)

/-- Goes past some of what is given to the program, if this is what a path stands for. Unless it
stays where it is, all of it is gone. -/
def passOver (path : List Char) (count : Nat) : Act Unit := do
  if path = standardInput ∨ path = octets "/dev/stdin" then
    let s ← get
    if s.isSeekable 0 then consume 0 count
    else consume 0 (s.unread 0).1.length

/-- All that is to be read at a path. -/
def readWhole (path : List Char) : Act (Except FileError (List Char)) := do
  match ← look path with
  | .error e => return .error e
  | .ok (text, isCut) =>
    if isCut then throw .starved
    passOver path text.length
    return .ok text

/-- Does something with each text, and says which ones cannot be read. Whether all could be. -/
def eachInput (paths : List (List Char)) (complaint : List Char → FileError → Act Unit)
    (act : List Char → List Char → Act Unit) : Act Bool := do
  let found ← paths.mapM fun path => do
    match ← readWhole path with
    | .ok text =>
      act path text
      return true
    | .error e =>
      complaint path e
      return false
  return found.all id

/-- What can be read at a path by lines, and whether there may be more of it. -/
def readLines (path : List Char) : Act (Except FileError (List Char × Bool)) := do
  match ← look path with
  | .error e => return .error e
  | .ok (text, isCut) =>
    passOver path text.length
    if isCut && text.contains '\n' then return .ok (Path.dropTrailing (· != '\n') text, true)
    return .ok (text, isCut)

/-- Does something with each text, of which each line may be dealt with as soon as it is there. -/
def eachStream (paths : List (List Char)) (complaint : List Char → FileError → Act Unit)
    (act : List Char → List Char → Act Unit) : Act Bool := do
  let found ← paths.mapM fun path => do
    match ← readLines path with
    | .ok (text, isCut) =>
      act path text
      if isCut then throw .starved
      return true
    | .error e =>
      complaint path e
      return false
  return found.all id

namespace Call

/-- The paths that a program reads: what is given to it, if there are no operands. -/
def inputs (c : Call) : List (List Char) :=
  if c.operands.isEmpty then [standardInput] else c.operands

end Call

def ofTruth (b : Bool) : Nat := if b then 0 else 1

inductive Takes where
  | nothing
  | value
  | perhaps
  deriving DecidableEq, Repr

structure LongOption where
  name : String
  /-- What the option is known by. -/
  key : String
  takes : Takes
  deriving DecidableEq, Repr

def flag (name key : String) : LongOption := ⟨name, key, .nothing⟩

def valued (name key : String) : LongOption := ⟨name, key, .value⟩

inductive Dashed where
  | letters
  /-- The value of an option that says how many. -/
  | count (option : String)
  | operand
  deriving DecidableEq, Repr

/-- What is said besides when arguments are not accepted. -/
inductive Advice where
  /-- Where more is to be found. -/
  | help
  /-- The same behind the program's name. -/
  | namedHelp
  /-- How the program is used, and where more is to be found. -/
  | usage (line : String)

/-- What a program accepts, and what it does. -/
structure Tool where
  /-- The letters of options. A colon follows those that have a value, and two those that may. -/
  letters : String
  longs : List LongOption
  act : Starter → Call → Act Nat
  /-- The status after an option that is not accepted, or when nothing can be written. -/
  failure : Nat
  dashed : Dashed
  /-- Whether everything behind the first operand is an operand too. -/
  isOrdered : Bool
  advice : Advice := .help
  /-- What else is said when arguments are not accepted. -/
  hint : List (List Char) → Option String := fun _ => none

namespace Tool

def of (letters : String) (longs : List LongOption) (act : Call → Act Nat) : Tool :=
  { letters := letters, longs := longs, act := fun _ => act, failure := 1, dashed := .letters
    isOrdered := false }

/-- A program whose options stand before its operands. -/
def ordered (letters : String) (longs : List LongOption) (act : Call → Act Nat) : Tool :=
  { of letters longs act with isOrdered := true }

def starting (letters : String) (longs : List LongOption) (failure : Nat)
    (act : Starter → Call → Act Nat) : Tool :=
  { letters := letters, longs := longs, act := act, failure := failure, dashed := .letters
    isOrdered := true }

abbrev Options := List (String × List Char)

/-- Whether a letter is an option, and whether it has a value. -/
def takes? (c : Char) : List Char → Option Takes
  | [] => none
  | d :: ':' :: ':' :: rest => if c = d then some .perhaps else takes? c rest
  | d :: ':' :: rest => if c = d then some .value else takes? c rest
  | d :: rest => if c = d then some .nothing else takes? c rest

/-- The options in one argument after its dash, and what else it leaves to be taken. -/
def shorts (t : Tool) : List Char → List (List Char) →
    Except (List Char) (Options × List (List Char))
  | [], rest => .ok ([], rest)
  | c :: cs, rest =>
    match takes? c t.letters.toList with
    | some .nothing =>
      (shorts t cs rest).map fun (os, rest) => ((String.singleton c, []) :: os, rest)
    | some .perhaps => .ok ([(String.singleton c, cs)], rest)
    | some .value =>
      if cs.isEmpty then
        match rest with
        | value :: rest => .ok ([(String.singleton c, value)], rest)
        | [] => .error (octets "option requires an argument -- '" ++ [c, '\''])
      else .ok ([(String.singleton c, cs)], rest)
    | none => .error (octets "invalid option -- '" ++ [c, '\''])

def long (t : Tool) (argument : List Char) (rest : List (List Char)) :
    Except (List Char) (Options × List (List Char)) :=
  let name := argument.takeWhile (· != '=')
  let given :=
    if name.length < argument.length then some (argument.drop (name.length + 1)) else none
  let found := t.longs.filter fun o => name.isPrefixOf o.name.toList
  let exact := found.filter fun o => o.name.toList == name
  let keys := (found.map (·.key)).eraseDups
  match if exact.isEmpty then found else exact with
  | [] => .error (octets "unrecognized option '--" ++ argument ++ ['\''])
  | o :: _ =>
    if exact.isEmpty ∧ 1 < keys.length then
      .error (octets "option '--" ++ argument ++ octets "' is ambiguous; possibilities:"
        ++ found.flatMap fun o => octets (" '--" ++ o.name ++ "'"))
    else match o.takes, given, rest with
      | .nothing, none, _ => .ok ([(o.key, [])], rest)
      | .nothing, some _, _ =>
        .error (octets ("option '--" ++ o.name ++ "' doesn't allow an argument"))
      | .perhaps, _, _ => .ok ([(o.key, given.getD [])], rest)
      | .value, some value, _ => .ok ([(o.key, value)], rest)
      | .value, none, value :: rest => .ok ([(o.key, value)], rest)
      | .value, none, [] => .error (octets ("option '--" ++ o.name ++ "' requires an argument"))

/-- The options and the operands in arguments, in any order. -/
def parse (t : Tool) : Nat → List (List Char) →
    Except (List Char) (Options × List (List Char))
  | 0, _ | _, [] => .ok ([], [])
  | limit + 1, argument :: rest => do
    match argument with
    | ['-', '-'] => return ([], rest)
    | '-' :: '-' :: name =>
      let (found, rest) ← long t name rest
      let (os, operands) ← parse t limit rest
      return (found ++ os, operands)
    | '-' :: c :: cs =>
      if (c.isDigit ∨ c = '.') ∧ t.dashed = .operand then
        let (os, operands) ← parse t limit rest
        return (os, argument :: operands)
      match t.dashed, (c :: cs).all (·.isDigit) with
      | .count option, true =>
        let (os, operands) ← parse t limit rest
        return ((option, c :: cs) :: os, operands)
      | _, _ =>
        let (found, rest) ← shorts t (c :: cs) rest
        let (os, operands) ← parse t limit rest
        return (found ++ os, operands)
    | _ =>
      if t.isOrdered then return ([], argument :: rest)
      let (os, operands) ← parse t limit rest
      return (os, argument :: operands)

/-- Says that something could not be written, if this is so. -/
def settle (t : Tool) (c : Call) (status : Nat) : Act Nat := do
  match ← takeTrouble with
  | none => return status
  | some e =>
    c.complain (octets ("write error: " ++ e.reason))
    return t.failure

def run (t : Tool) (start : Starter) (name : List Char) (arguments : List (List Char)) :
    Act Nat := do
  let isWide := Tools.isWide (← get).shell
  match parse t (arguments.length + 1) arguments with
  | .ok (options, operands) =>
    let c : Call := ⟨name, options, operands, isWide⟩
    t.settle c (← t.act start c)
  | .error message =>
    let c : Call := ⟨name, [], [], isWide⟩
    c.complain message
    if let some line := t.hint arguments then c.complain (octets line)
    match t.advice with
    | .help => c.sayHelp
    | .namedHelp => c.complain c.helpLine
    | .usage line =>
      say (octets line)
      { c with name := (Path.fileName? name).getD name }.sayHelp
    return t.failure

end Tool

def needs (count : Nat) (act : Call → Act Nat) (c : Call) : Act Nat := do
  if count ≤ c.operands.length then act c
  else match c.operands.getLast? with
    | none => c.misused 1 (octets "missing operand")
    | some last => c.misused 1 (octets "missing operand after " ++ c.cited last)

/-- Some programs take at most so many operands. -/
def atMost (count : Nat) (act : Call → Act Nat) (c : Call) : Act Nat := do
  match c.operands[count]? with
  | none => act c
  | some excess => c.misused 1 (octets "extra operand " ++ c.cited excess)

end TestBench.Tools
