import TestBench.Source.Grammar

/-!
The rules of the grammar and its loops. A rule has a production at each level,
and each level is built over the one below it. Programs, classes and blocks are
read item by item: a turn of such a loop reads one item, or leaves it and
resumes behind the fault. Reading in turns is defined without a bound on the
number of turns, which the productions have.
-/
namespace TestBench.Source

/-- The level below the one with so much room. -/
def Level.below? : Nat → Option Level
  | 0 => none
  | room + 1 => some (Level.withRoom room)

/-- The rules of the grammar, by what they read. -/
inductive Rule : Type → Type
  | accept (kind : TokenKind) : Rule Bool
  | expect (what : Expectation) (kind : TokenKind) : Rule Unit
  | identifier : Rule (Spanned String)
  | qualifiedName : Rule (Spanned QualifiedName)
  | expression : Rule Expr
  | binary (least : Nat) : Rule Expr
  | operand : Rule Expr
  | primary : Rule Expr
  | arguments : Rule (List Expr)
  | block : Rule (List Stmt)
  | assigned (what : Expectation) : Rule Expr
  | statement : Rule Stmt
  | conditional : Rule Stmt
  | attributeItem : Rule Attribute
  | attributes : Rule (List Attribute)
  | parameters : Rule (List (Spanned String))
  | member : Rule Member
  | classDecl : Rule ClassDecl
  | directive (word : Keyword) : Rule (Spanned QualifiedName)
  | declaration (p : Program) : Rule Program

namespace Rule

/-- The production of a rule at a level that is built over the one below. -/
def atLevel {α : Type} (l : Level) (below : Option Level) : Rule α → Production α
  | .accept kind => Production.accept kind
  | .expect what kind => Production.expect what kind
  | .identifier => Production.identifier
  | .qualifiedName => Source.qualifiedName
  | .expression => l.expression
  | .binary least => l.binary least
  | .operand => l.operand
  | .primary => Source.primary below
  | .arguments => Source.arguments l.expression
  | .block => Source.block below
  | .assigned what => Source.assigned l.expression what
  | .statement => l.statement
  | .conditional => l.conditional
  | .attributeItem => Source.attributeItem l
  | .attributes => Source.attributes l
  | .parameters => Source.parameters
  | .member => Source.member l below
  | .classDecl => Source.classDecl l below
  | .directive word => Source.directive word
  | .declaration p => Source.declaration l below p

/-- The production of a rule under which so many further levels may be opened. -/
def withRoom {α : Type} (rule : Rule α) (room : Nat) : Production α :=
  rule.atLevel (Level.withRoom room) (Level.below? room)

end Rule

namespace Production

variable {σ α : Type}

theorem inside_run (p : Production α) {c : Cursor} (h : c.depth < maxNesting) :
    inside p c = ((p { c with depth := c.depth + 1 }).1,
      { (p { c with depth := c.depth + 1 }).2 with
        depth := (p { c with depth := c.depth + 1 }).2.depth - 1 }) := if_pos h

/-- Puts what is read before what was read. -/
def collecting (p : Production α) (read : List α) : Production (List α) := return (← p) :: read

/-- Reads an item, or leaves it and resumes behind the fault. -/
def turn (item : σ → Production σ) (s : σ) (c : Cursor) : σ × Cursor :=
  match item s c with
  | (.ok s', c') => (s', c')
  | (.error fault, c') => (s, c'.recover c.ahead.length fault)

/-- Any number of turns lead from the one state to the other. -/
inductive Turns (stop : Cursor → Bool) (item : σ → Production σ) :
    σ → Cursor → σ → Cursor → Prop
  | refl (s : σ) (c : Cursor) : Turns stop item s c s c
  | step {s s' : σ} {c c' : Cursor} (hstop : stop c = false)
    (rest : Turns stop item (turn item s c).1 (turn item s c).2 s' c') : Turns stop item s c s' c'

theorem recoveringUpTo_succ (stop : Cursor → Bool) (item : σ → Production σ) (limit : Nat) (s : σ)
    (c : Cursor) : recoveringUpTo stop item (limit + 1) s c =
      if stop c then (s, c)
      else recoveringUpTo stop item limit (turn item s c).1 (turn item s c).2 := by
  rw [recoveringUpTo, turn]
  rcases item s c with ⟨_ | _, _⟩ <;> rfl

/-- A bounded loop does nothing but turns. -/
theorem turns_recoveringUpTo (stop : Cursor → Bool) (item : σ → Production σ) (limit : Nat) (s : σ)
    (c : Cursor) : Turns stop item s c (recoveringUpTo stop item limit s c).1
      (recoveringUpTo stop item limit s c).2 := by
  induction limit generalizing s c with
  | zero => exact .refl s c
  | succ limit ih =>
    rw [recoveringUpTo_succ]
    by_cases hstop : stop c = true
    · rw [if_pos hstop]
      exact .refl s c
    · rw [if_neg hstop]
      exact .step (by simpa using hstop) (ih _ _)

/-- What every turn keeps is kept by any number of turns. -/
theorem Turns.keep {stop : Cursor → Bool} {item : σ → Production σ} {P : σ → Cursor → Prop}
    {s s' : σ} {c c' : Cursor} (h : Turns stop item s c s' c')
    (hturn : ∀ s c, stop c = false → P s c → P (turn item s c).1 (turn item s c).2)
    (hs : P s c) : P s' c' := by
  induction h with
  | refl => exact hs
  | step hstop _ ih => exact ih (hturn _ _ hstop hs)

end Production

open Production

/-- The loops that recover from faults, by what they collect. -/
inductive Loop : Type → Type
  | statements : Loop (List Stmt)
  | members : Loop (List Member)
  | declarations : Loop Program

namespace Loop

variable {σ : Type}

def stop : Loop σ → Cursor → Bool
  | .statements => closesBlock
  | .members => closesBlock
  | .declarations => Cursor.atEnd

/-- An item of the loop at a level that is built over the one below. -/
def atLevel (l : Level) (below : Option Level) : Loop σ → σ → Production σ
  | .statements => collecting l.statement
  | .members => collecting (member l below)
  | .declarations => declaration l below

def withRoom (loop : Loop σ) (room : Nat) : σ → Production σ :=
  loop.atLevel (Level.withRoom room) (Level.below? room)

/-- At the end of the file every loop stops. -/
theorem atEnd_eq_false {loop : Loop σ} {c : Cursor} (h : loop.stop c = false) :
    c.atEnd = false := by
  cases loop with
  | declarations => exact h
  | statements => exact (Bool.or_eq_false_iff.1 h).2
  | members => exact (Bool.or_eq_false_iff.1 h).2

end Loop

end TestBench.Source
