/-!
Regular expressions and their matches. A match begins as early as it can and is
then as long as it can be; among the ways to make it, every part of the
expression takes as much as it can, the first parts before the others.
-/
namespace TestBench

/-- A point in a text: how many characters stand before it, the last one of these, and what
follows. -/
structure Point where
  index : Nat
  before : Option Char
  rest : List Char

namespace Point

def start (text : List Char) : Point := ⟨0, none, text⟩

def advance (p : Point) : Nat → Point
  | 0 => p
  | n + 1 => match p.rest with
    | [] => p
    | c :: rest => advance ⟨p.index + 1, some c, rest⟩ n

/-- The characters between two points of one text. -/
def upTo (p q : Point) : List Char := p.rest.take (q.index - p.index)

def isWordCharacter (c : Char) : Bool := c.isAlphanum || c == '_'

def isAfterWord (p : Point) : Bool := p.before.any isWordCharacter

def isBeforeWord (p : Point) : Bool := p.rest.head?.any isWordCharacter

/-- All of some points, those farther on first, and none of them twice. -/
def merge : Nat → List Point → List Point → List Point
  | 0, ps, _ => ps
  | _, [], qs => qs
  | _, ps, [] => ps
  | limit + 1, p :: ps, q :: qs =>
    if p.index = q.index then p :: merge limit ps qs
    else if q.index < p.index then p :: merge limit ps (q :: qs)
    else q :: merge limit (p :: ps) qs

def union (ps qs : List Point) : List Point := merge (ps.length + qs.length) ps qs

def unions (pss : List (List Point)) : List Point := pss.foldl union []

end Point

/-- What a place in a text has to be like. -/
inductive Boundary where
  | lineStart
  | lineEnd
  | textStart
  | textEnd
  | wordStart
  | wordEnd
  | wordEdge
  | noWordEdge
  deriving DecidableEq, Repr

inductive Regex where
  | empty
  | one (accepts : Char → Bool)
  | at (boundary : Boundary)
  | concat (first second : Regex)
  | either (first second : Regex)
  | repeated (body : Regex) (least : Nat) (most : Option Nat)
  | group (number : Nat) (body : Regex)
  /-- What a group has matched, once more. -/
  | again (number : Nat) (sameCharacter : Char → Char → Bool)

namespace Boundary

/-- Whether a point is a boundary. Lines may end within the text. -/
def holds (severalLines : Bool) (p : Point) : Boundary → Bool
  | .lineStart => p.before.isNone || (severalLines && p.before == some '\n')
  | .lineEnd => p.rest.isEmpty || (severalLines && p.rest.head? == some '\n')
  | .textStart => p.before.isNone
  | .textEnd => p.rest.isEmpty
  | .wordStart => !p.isAfterWord && p.isBeforeWord
  | .wordEnd => p.isAfterWord && !p.isBeforeWord
  | .wordEdge => p.isAfterWord != p.isBeforeWord
  | .noWordEdge => p.isAfterWord == p.isBeforeWord

end Boundary

namespace Regex

/-- The points after so many characters that are accepted, the farthest first. -/
def run (accepts : Char → Bool) : Nat → Point → List Point → List Point
  | 0, p, behind => p :: behind
  | most + 1, p, behind => match p.rest with
    | c :: rest =>
      if accepts c then run accepts most ⟨p.index + 1, some c, rest⟩ (p :: behind)
      else p :: behind
    | [] => p :: behind

/-- The points that so many steps lead to, or fewer. -/
def closure (step : Point → List Point) : Nat → List Point → List Point → List Point
  | 0, _, found => found
  | most + 1, latest, found =>
    let next := Point.unions (latest.map step)
    let new := next.filter fun p => !found.any (·.index == p.index)
    if new.isEmpty then found else closure step most new (Point.union found new)

def steps (step : Point → List Point) : Nat → List Point → List Point
  | 0, ps => ps
  | n + 1, ps => steps step n (Point.unions (ps.map step))

/-- Where matches that begin at a point end, the farthest first. Groups that come once more are
taken for empty. -/
def ends (severalLines : Bool) : Regex → Point → List Point
  | empty, p => [p]
  | one accepts, p => match p.rest with
    | c :: rest => if accepts c then [⟨p.index + 1, some c, rest⟩] else []
    | [] => []
  | .at b, p => if b.holds severalLines p then [p] else []
  | concat a b, p => match ends severalLines a p with
    | [q] => ends severalLines b q
    | qs => Point.unions (qs.map (ends severalLines b))
  | either a b, p => Point.union (ends severalLines a p) (ends severalLines b p)
  | repeated (one accepts) least most, p =>
    (run accepts (most.getD p.rest.length) p []).filter fun q => p.index + least ≤ q.index
  | repeated body least most, p =>
    let start := steps (ends severalLines body) least [p]
    closure (ends severalLines body) (match most with
      | some n => n - least
      | none => p.rest.length + 1) start start
  | group _ body, p => ends severalLines body p
  | again .., p => [p]

/-- What groups have matched, the last one first. -/
abbrev Groups := List (Nat × Point × Point)

def Groups.set (gs : Groups) (number : Nat) (p q : Point) : Groups :=
  (number, p, q) :: gs.filter (·.1 != number)

def reaches (qs : List Point) (q : Point) : Bool := qs.any (·.index == q.index)

/-- The groups of a body that is repeated between two points. -/
def captureAll (body : Point → Point → Groups → Groups) (step : Point → List Point)
    (canGoOn : Nat → Point → Bool) (q : Point) : Nat → Nat → Point → Groups → Groups
  | 0, _, _, gs => gs
  | limit + 1, done, p, gs =>
    if p.index = q.index then
      if done = 0 && reaches (step p) q then body p q gs else gs
    else match (step p).find? fun m => p.index < m.index && canGoOn (done + 1) m with
      | some m => captureAll body step canGoOn q limit (done + 1) m (body p m gs)
      | none => gs

/-- The groups of a match between two points. -/
def capture (severalLines : Bool) : Regex → Point → Point → Groups → Groups
  | group n body, p, q, gs => (capture severalLines body p q gs).set n p q
  | concat a b, p, q, gs =>
    match (ends severalLines a p).find? fun m => reaches (ends severalLines b m) q with
    | some m => capture severalLines b m q (capture severalLines a p m gs)
    | none => gs
  | either a b, p, q, gs =>
    if reaches (ends severalLines a p) q then capture severalLines a p q gs
    else capture severalLines b p q gs
  | repeated body least most, p, q, gs =>
    captureAll (capture severalLines body) (ends severalLines body)
      (fun done m =>
        reaches (ends severalLines (repeated body (least - done) (most.map (· - done))) m) q)
      q (q.index - p.index + 1) 0 p gs
  | _, _, _, gs => gs

/-- The point behind a text, if a point stands before it. -/
def past? (same : Char → Char → Bool) (p : Point) : List Char → Option Point
  | [] => some p
  | c :: cs => match p.rest with
    | d :: rest => if same c d then past? same ⟨p.index + 1, some d, rest⟩ cs else none
    | [] => none

/-- All that repeating a body leads to, more of it first. -/
def repeatedPaths (body : Groups → Point → List (Point × Groups)) :
    Nat → Nat → Option Nat → Groups → Point → List (Point × Groups)
  | 0, _, _, gs, p => [(p, gs)]
  | limit + 1, least, most, gs, p =>
    let more := if most = some 0 then [] else (body gs p).flatMap fun (q, found) =>
      if q.index = p.index then (if least = 0 then [] else [(q, found)])
      else repeatedPaths body limit (least - 1) (most.map (· - 1)) found q
    if least = 0 then more ++ [(p, gs)] else more

/-- Where matches that begin at a point end, each with its groups, the preferred ones first. -/
def paths (severalLines : Bool) : Regex → Groups → Point → List (Point × Groups)
  | concat a b, gs, p =>
    (paths severalLines a gs p).flatMap fun (q, found) => paths severalLines b found q
  | either a b, gs, p => paths severalLines a gs p ++ paths severalLines b gs p
  | repeated body least most, gs, p =>
    repeatedPaths (paths severalLines body) (p.rest.length + least + 1) least most gs p
  | group n body, gs, p =>
    (paths severalLines body gs p).map fun (q, found) => (q, found.set n p q)
  | again n same, gs, p => match List.lookup n gs with
    | some (a, b) => ((past? same p (a.upTo b)).map (·, gs)).toList
    | none => []
  | r, gs, p => (ends severalLines r p).map (·, gs)

def repeats : Regex → Bool
  | concat a b | either a b => a.repeats || b.repeats
  | repeated body _ _ | group _ body => body.repeats
  | again .. => true
  | _ => false

def hasGroups : Regex → Bool
  | concat a b | either a b => a.hasGroups || b.hasGroups
  | repeated body _ _ => body.hasGroups
  | group .. => true
  | _ => false

/-- A part of a text that an expression matches, with its groups. -/
structure Match where
  start : Point
  stop : Point
  groups : Groups

namespace Match

def text (m : Match) : List Char := m.start.upTo m.stop

def group (m : Match) (number : Nat) : List Char :=
  if number = 0 then m.text
  else match List.lookup number m.groups with
    | some (p, q) => p.upTo q
    | none => []

end Match

/-- The longest match that begins at a point. -/
def matchAt? (severalLines : Bool) (r : Regex) (p : Point) : Option Match :=
  if r.repeats then
    let found := paths severalLines r [] p
    let farthest := found.foldl (fun n (q, _) => max n q.index) 0
    (found.find? fun (q, _) => q.index == farthest).map fun (q, gs) => ⟨p, q, gs⟩
  else (ends severalLines r p).head?.map fun q =>
    ⟨p, q, if r.hasGroups then capture severalLines r p q [] else []⟩

/-- The first match at a point or behind it. -/
def find? (severalLines : Bool) (r : Regex) (p : Point) : Option Match :=
  search p.before p.index p.rest
where
  search (before : Option Char) (index : Nat) (rest : List Char) : Option Match :=
    match matchAt? severalLines r ⟨index, before, rest⟩, rest with
    | some m, _ => some m
    | none, [] => none
    | none, c :: rest => search (some c) (index + 1) rest

/-- Whether an expression matches some part of a text. -/
def isIn (severalLines : Bool) (r : Regex) (text : List Char) : Bool :=
  if r.repeats then (find? severalLines r (Point.start text)).isSome
  else search none 0 text
where
  search (before : Option Char) (index : Nat) (rest : List Char) : Bool :=
    if !(ends severalLines r ⟨index, before, rest⟩).isEmpty then true
    else match rest with
      | [] => false
      | c :: rest => search (some c) (index + 1) rest

end Regex

end TestBench
