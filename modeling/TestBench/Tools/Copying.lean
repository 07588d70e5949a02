import TestBench.Tools.Directories

/-!
Entries that get other names or further ones, and copies of entries. A target that is a directory
means the entry of the same name inside it.
-/
namespace TestBench.Tools

open Shell

namespace Copying

structure Pair where
  source : List Char
  target : List Char
  deriving DecidableEq, Repr

/-- What the operands mean, or the status if they mean nothing. -/
def pairs (c : Call) (isDirectory : Files → List Char → Bool) : Act (Except Nat (List Pair)) := do
  let files := (← get).view
  let into (directory source : List Char) : Pair :=
    ⟨source, inDirectory directory (lastName source)⟩
  let refuse (what : String) (path : List Char) : Act (Except Nat (List Pair)) := do
    c.failed what path (match files.find (pathOf path) with
      | .ok _ => .notDirectory
      | .error e => e)
    return .error 1
  match c.value? "t", c.operands with
  | _, [] => return .error (← c.misused 1 (octets "missing file operand"))
  | some directory, sources =>
    if isDirectory files directory then return .ok (sources.map (into directory))
    refuse "target directory" directory
  | none, [source] =>
    return .error (← c.misused 1 (octets "missing destination file operand after "
      ++ Call.marked source))
  | none, first :: second :: rest =>
    let operands := first :: second :: rest
    let target := operands.getLast?.getD second
    if c.has "T" then
      match rest with
      | [] => return .ok [⟨first, second⟩]
      | excess :: _ =>
        return .error (← c.misused 1 (octets "extra operand " ++ Call.marked excess))
    if isDirectory files target then return .ok (operands.dropLast.map (into target))
    if rest.isEmpty then return .ok [⟨first, second⟩]
    refuse "target" target

def followed (files : Files) (path : List Char) : Bool := files.isDirectory (pathOf path)

/-- Whether two paths lead to the same file. -/
def areSame (files : Files) (a b : Location) : Bool :=
  a = b || match files.entry? a, files.entry? b with
    | some (.file m), some (.file n) => m = n
    | _, _ => false

def arrow (p : Pair) : List Char := Call.marked p.source ++ octets " -> " ++ Call.marked p.target

/-- Why nothing can be made at a path, if it is so. -/
def obstacle? (files : Files) (path : List Char) : Option FileError :=
  match files.locate (pathOf path) with
  | .error e => some e
  | .ok place => (files.parentError? place).or
      (if path.getLast? = some '/' ∧ (files.entry? place).isNone then some .notDirectory else none)

/-- Whether a target that is there may be replaced. None means that this is no failure. -/
def mayReplace (c : Call) (p : Pair) : Act (Option Bool) := do
  match c.last? ["n", "f"] with
  | some "n" =>
    if c.has "moves" then
      c.complain (octets "not replacing " ++ Call.marked p.target)
      return some false
    return none
  | _ => return some true

/-- Copies what is not a directory. Whether this went well. -/
def copyFile (c : Call) (p : Pair) (e : FileEntry) (made : List Location) :
    Act (Bool × List Location) := do
  let s ← get
  let files := s.view
  let refuse (message : List Char) : Act (Bool × List Location) := do
    c.complain message
    return (false, made)
  let source := (files.locate (pathOf p.source)).toOption
  let target := (files.locate (pathOf p.target)).toOption
  let old := target.bind fun place => files.entry? place
  if old.any (·.isDirectory) then
    return ← refuse (octets "cannot overwrite directory " ++ Call.marked p.target
      ++ octets " with non-directory")
  if let (some a, some b) := (source, target) then
    if old.isSome ∧ areSame files a b then
      return ← refuse (Call.marked p.source ++ octets " and " ++ Call.marked p.target
        ++ octets " are the same file")
  if target.any made.contains then
    return ← refuse (octets "will not overwrite just-created " ++ Call.marked p.target
      ++ octets " with " ++ Call.marked p.source)
  if old.isSome then
    match ← mayReplace c p with
    | none => return (true, made)
    | some false => return (false, made)
    | some true => pure ()
  match obstacle? files p.target with
  | some reason => refuse (octets "cannot create regular file " ++ Call.marked p.target
      ++ octets (": " ++ reason.reason))
  | none =>
    let place := target.getD []
    if c.has "v" then print (arrow p ++ ['\n'])
    let mode := files.modeOf e
    let bytes := match e with
      | .file n => files.bytesOf n
      | .program _ => Files.programBytes
      | _ => []
    let changed := files.changedAt e
    let described (files : Files) : Files :=
      if c.has "p" then (files.setMode place mode).setTime place changed else files
    match e with
    | .link target => modify (·.update (files.put place (.link target)))
    | _ =>
      match files.entry? place with
      | some (.file n) => modify (·.update (described (files.rewrite n bytes)))
      | some _ => pure ()
      | none => modify (·.update (described (files.create place (files.allowed mode) bytes)))
    return (true, place :: made)

/-- Copies an entry with all that is in it. -/
def copyEntry (c : Call) : Nat → Bool → Pair → List Location → Act (Bool × List Location)
  | 0, _, _, made => return (false, made)
  | limit + 1, isOperand, p, made => do
    let files := (← get).view
    let follows := c.has "L" || (isOperand && !(c.has "r" || c.has "P"))
    match (if follows then files.find else files.findEntry) (pathOf p.source) with
    | .error e =>
      c.failed "cannot stat" p.source e
      return (false, made)
    | .ok (.directory a) =>
      if !c.has "r" then
        c.complain (octets "-r not specified; omitting directory " ++ Call.marked p.source)
        return (false, made)
      let there := files.find (pathOf p.target)
      let isThere := there.toOption.any (·.isDirectory)
      if there.isOk && !isThere then
        c.complain (octets "cannot overwrite non-directory " ++ Call.marked p.target
          ++ octets " with directory " ++ Call.marked p.source)
        return (false, made)
      let source := (files.locate (pathOf p.source)).toOption.getD []
      let names := files.namesAt source
      match files.locateNew (pathOf p.target) with
      | .error e =>
        c.failed "cannot create directory" p.target e
        return (false, made)
      | .ok target =>
        let target := if isThere then (files.locate (pathOf p.target)).toOption.getD target
          else target
        let isInside := source.isPrefixOf target
        if !isThere then
          match files.parentError? target with
          | some e =>
            c.failed "cannot create directory" p.target e
            return (false, made)
          | none =>
            if c.has "v" then print (arrow p ++ ['\n'])
            modify (·.update (files.put target (.directory ⟨files.allowed a.mode, files.now⟩)))
        let inner := names.filter fun n => !(isInside && (source ++ [n]).isPrefixOf target)
        let step (state : Bool × List Location) (n : String) : Act (Bool × List Location) := do
          let (fine, made) ← copyEntry c limit false
            ⟨inDirectory p.source (octets n), inDirectory p.target (octets n)⟩ state.2
          return (state.1 && fine, made)
        let (fine, made) ← inner.foldlM step (true, made)
        if c.has "p" then
          modify fun s => s.update ((s.view.setMode target a.mode).setTime target a.changed)
        if isInside then
          c.complain (octets "cannot copy a directory, " ++ Call.marked p.source
            ++ octets ", into itself, " ++ Call.marked p.target)
        return (fine && !isInside, made)
    | .ok e => copyFile c p e made

def plainly (c : Call) : Call :=
  let options := c.options.map fun (o, v) => (if o = "R" then "r" else o, v)
  let more := if options.any (·.1 == "a") then [("r", []), ("P", []), ("p", [])] else []
  let more := if options.any (·.1 == "d") then ("P", []) :: more else more
  { c with options := options ++ more }

def copy (c : Call) : Act Nat := do
  let c := plainly c
  if c.has "n" then
    c.complain (octets ("warning: behavior of -n is non-portable and may change in future; "
      ++ "use --update=none instead"))
  match ← pairs c followed with
  | .error status => return status
  | .ok found =>
    let step (state : Bool × List Location) (p : Pair) : Act (Bool × List Location) := do
      let (fine, made) ← copyEntry c Files.pathLimit true p state.2
      return (state.1 && fine, made)
    let (fine, _) ← found.foldlM step (true, [])
    return ofTruth fine

def tool : Tool :=
  .of "adfLnpPrRt:Tv" [flag "archive" "a", flag "force" "f",
    flag "dereference" "L", flag "no-clobber" "n", flag "no-dereference" "P",
    flag "preserve" "p", flag "recursive" "r", valued "target-directory" "t",
    flag "no-target-directory" "T", flag "verbose" "v"] copy

end Copying

namespace Moving

open Copying

def moveOne (c : Call) (p : Pair) : Act Bool := do
  let files := (← get).view
  let refuse (message : List Char) : Act Bool := do
    c.complain message
    return false
  let both (e : FileError) : Act Bool :=
    refuse (octets "cannot move " ++ Call.marked p.source ++ octets " to " ++ Call.marked p.target
      ++ octets (": " ++ e.reason))
  match files.locateEntry (pathOf p.source), files.findEntry (pathOf p.source) with
  | .error e, _ | _, .error e =>
    c.failed "cannot stat" p.source e
    return false
  | .ok source, .ok e =>
    match (if e.isDirectory then files.locateNew else files.locateEntry) (pathOf p.target) with
    | .error reason => both reason
    | .ok target =>
      let old := files.entry? target
      let isOther := old.isSome && source != target
      if source = target then
        return ← if e.isDirectory then
            refuse (octets "cannot move " ++ Call.marked p.source
              ++ octets " to a subdirectory of itself, " ++ Call.marked p.target)
          else refuse (Call.marked p.source ++ octets " and " ++ Call.marked p.target
            ++ octets " are the same file")
      if e.isDirectory ∧ source.isPrefixOf target then
        return ← refuse (octets "cannot move " ++ Call.marked p.source
          ++ octets " to a subdirectory of itself, " ++ Call.marked p.target)
      if isOther then
        match ← mayReplace c p with
        | none => return true
        | some false => return false
        | some true => pure ()
        match old, e.isDirectory with
        | some (.directory _), false =>
          return ← refuse (octets "cannot overwrite directory " ++ Call.marked p.target
            ++ octets " with non-directory")
        | some (.directory _), true =>
          if !files.isEmptyAt target then
            c.failed "cannot overwrite" p.target .notEmpty
            return false
        | some _, true =>
          return ← refuse (octets "cannot overwrite non-directory " ++ Call.marked p.target
            ++ octets " with directory " ++ Call.marked p.source)
        | _, _ => pure ()
      match files.parentError? target, e.isDirectory || p.target.getLast? ≠ some '/' with
      | some reason, _ => both reason
      | none, false => both .notDirectory
      | none, true =>
        if c.has "v" then print (octets "renamed " ++ arrow p ++ ['\n'])
        modify fun s => s.update (s.view.move source target)
        return true

def move (c : Call) : Act Nat := do
  let c := { c with options := ("moves", []) :: c.options }
  match ← pairs c followed with
  | .error status => return status
  | .ok found =>
    let fine ← found.mapM (moveOne c)
    return ofTruth (fine.all id)

def tool : Tool :=
  .of "fnt:Tv" [flag "force" "f", flag "no-clobber" "n",
    valued "target-directory" "t", flag "no-target-directory" "T", flag "verbose" "v"] move

end Moving

end TestBench.Tools
