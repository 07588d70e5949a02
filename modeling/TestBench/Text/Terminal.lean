import TestBench.Text.Utf8

/-!
Text without the control sequences of terminals. A sequence begins with the
escape byte and is not shown; of the other control bytes only blanks are. Shown
bytes come in runs, and a run is read as plain text even if a blank within a
sequence has begun it.
-/
namespace TestBench.Terminal

/-- How far a control sequence has been read. -/
inductive Stage where
  | ground
  | escape
  | escapeIntermediate
  | control
  | deviceEntry
  | deviceParameters
  | deviceIntermediate
  /-- Up to a terminator. -/
  | string
  /-- Up to a bell. -/
  | title
  | character (p : Utf8.Pending)

def isIntermediate (b : Nat) : Bool := 0x20 ≤ b && b < 0x30

def isFinal (b : Nat) : Bool := 0x40 ≤ b && b < 0x7F

/-- The blanks among the control bytes. -/
def isBlank (b : Nat) : Bool := b = 0x09 || b = 0x0A || b = 0x0C || b = 0x0D

/-- The character that a byte begins, if more bytes belong to it. -/
def opened? (b : Nat) : Option Utf8.Pending :=
  match Utf8.lead b with
  | .more p => some p
  | _ => none

/-- What the byte after an escape begins. -/
def introduced? (b : Nat) : Option Stage :=
  if isIntermediate b then some .escapeIntermediate
  else if b = 0x50 then some .deviceEntry
  else if b = 0x58 ∨ b = 0x5E ∨ b = 0x5F then some .string
  else if b = 0x5B then some .control
  else if b = 0x5D then some .title
  else if 0x30 ≤ b ∧ b < 0x7F then some .ground
  else none

/-- The stage that a byte leads to, if it is another one. Two bytes cancel any sequence, and the
escape byte begins a new one. -/
def Stage.next? (s : Stage) (b : Nat) : Option Stage :=
  if b = 0x18 ∨ b = 0x1A then some .ground
  else if b = 0x1B then some .escape
  else match s with
    | .ground => (opened? b).map .character
    | .escape => introduced? b
    | .escapeIntermediate => if 0x30 ≤ b ∧ b < 0x7F then some .ground else none
    | .control => if isFinal b then some .ground else none
    | .deviceEntry =>
      if isIntermediate b then some .deviceIntermediate
      else if 0x30 ≤ b ∧ b < 0x40 then some .deviceParameters
      else if isFinal b then some .string else none
    | .deviceParameters =>
      if isIntermediate b then some .deviceIntermediate
      else if 0x3C ≤ b ∧ b < 0x7F then some .string else none
    | .deviceIntermediate => if 0x30 ≤ b ∧ b < 0x7F then some .string else none
    | .string => if b = 0x9C then some .ground else none
    | .title => if b = 0x07 then some .ground else none
    | .character _ => none

def Stage.next (s : Stage) (b : Nat) : Stage := (s.next? b).getD s

/-- Whether a byte that does not belong to a run yet is shown. -/
def Stage.shows (s : Stage) (b : Nat) : Bool :=
  match s with
  | .ground => isBlank b || (0x20 ≤ b && b < 0x7F) || (opened? b).isSome
  | .escape | .escapeIntermediate | .control => isBlank b
  | _ => false

structure Screen where
  stage : Stage
  /-- Whether the last byte was shown. -/
  inRun : Bool

namespace Screen

def skip (stage : Stage) (b : Nat) : Screen := ⟨stage.next b, stage.shows b⟩

/-- Reads a byte, which is shown if a run goes on with it. -/
def read (s : Screen) (b : Nat) : Screen :=
  match s.stage with
  | .character p =>
    match (Utf8.step (some p) b).2 with
    | some more => ⟨.character more, true⟩
    | none => ⟨.ground, true⟩
  | stage =>
    if s.inRun then
      let next := (Stage.ground.next? b).getD stage
      if Stage.ground.shows b then ⟨next, true⟩ else skip next b
    else skip stage b

end Screen

def shown : Screen → Bytes → Bytes
  | _, [] => []
  | s, b :: rest =>
    let next := s.read b.toNat
    if next.inRun then b :: shown next rest else shown next rest

/-- What of a text is shown where there is no terminal. -/
def plain (text : String) : String :=
  Utf8.toStringLossy (shown ⟨.ground, false⟩ (Utf8.ofString text))

end TestBench.Terminal
