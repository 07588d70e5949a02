import TestBench.Proofs.GrammarInvariants
import TestBench.Proofs.GrammarRules

/-!
Readings that agree. Two productions agree at a depth if from there they read the
same, also where other faults were reported before, and end at a depth that is
known. Most come back to the depth at which they started; only behind a left
operand it grows. The rules follow the ways in which productions are put
together, so that the levels of the grammar agree if those below them do, one
step further in.
-/
namespace TestBench.Source

open Production

namespace Cursor

/-- The cursor where other faults have been reported before. -/
def after (earlier : List (Spanned SyntaxFault)) (c : Cursor) : Cursor :=
  { c with faults := earlier ++ c.faults }

variable (earlier : List (Spanned SyntaxFault)) (c : Cursor)

@[simp] theorem after_ahead : (c.after earlier).ahead = c.ahead := rfl

@[simp] theorem after_depth : (c.after earlier).depth = c.depth := rfl

@[simp] theorem after_peek : (c.after earlier).peek = c.peek := rfl

@[simp] theorem after_kind : (c.after earlier).kind = c.kind := rfl

@[simp] theorem after_secondKind : (c.after earlier).secondKind = c.secondKind := rfl

theorem after_advance : (c.after earlier).advance = c.advance.after earlier := by
  unfold advance
  rw [after_ahead]
  split
  · rfl
  · split
    · rfl
    · rfl

theorem after_recover (size : Nat) (fault : Spanned SyntaxFault) :
    (c.after earlier).recover size fault = (c.recover size fault).after earlier := by
  have hreport : (c.after earlier).report fault = (c.report fault).after earlier := by
    unfold report after
    rw [List.append_assoc]
  have hskip : ((c.report fault).after earlier).synchronize =
      (c.report fault).synchronize.after earlier := rfl
  unfold recover
  dsimp only
  rw [hreport, hskip, after_ahead, after_advance]
  split
  · rfl
  · rfl

theorem depth_recover (size : Nat) (fault : Spanned SyntaxFault) :
    (c.recover size fault).depth = c.depth := by
  unfold recover
  dsimp only
  split
  · exact depth_advance _
  · rfl

end Cursor

namespace Production

variable {α β σ : Type} {earlier : List (Spanned SyntaxFault)} {start between : Nat}
  {ends : Nat → Prop}

/-- From the depth at which reading starts both productions read the same, also where other faults
were reported before, and end at such a depth. -/
def Agrees (earlier : List (Spanned SyntaxFault)) (start : Nat) (p q : Production α)
    (ends : Nat → Prop) : Prop :=
  ∀ c : Cursor, c.depth = start →
    q (c.after earlier) = ((p c).1, (p c).2.after earlier) ∧ ends (p c).2.depth

/-- The same, and they come back to the depth at which reading started. -/
def KeptAt (earlier : List (Spanned SyntaxFault)) (start : Nat) (p q : Production α) : Prop :=
  Agrees earlier start p q (· = start)

section Rules

variable {p q : Production α} {next next' : α → Production β}

theorem Agrees.bind (h : Agrees earlier start p q (· = between)) (hends : ends between)
    (hnext : ∀ a, Agrees earlier between (next a) (next' a) ends) :
    Agrees earlier start (p >>= next) (q >>= next') ends := by
  intro c hc
  obtain ⟨hrun, hdepth⟩ := h c hc
  rw [bind_run, bind_run, hrun]
  rcases hp : p c with ⟨_ | a, d⟩
  · rw [hp] at hdepth
    exact ⟨rfl, hdepth ▸ hends⟩
  · rw [hp] at hdepth
    exact hnext a d hdepth

theorem KeptAt.bind (h : KeptAt earlier start p q)
    (hnext : ∀ a, KeptAt earlier start (next a) (next' a)) :
    KeptAt earlier start (p >>= next) (q >>= next') := Agrees.bind h rfl hnext

theorem Agrees.pure (a : α) (h : ends start) :
    Agrees earlier start (pure a) (pure a) ends := fun _ hc => ⟨rfl, hc ▸ h⟩

theorem KeptAt.pure (a : α) : KeptAt earlier start (pure a) (pure a) := Agrees.pure a rfl

theorem Agrees.fail (fault : SyntaxFault) (span : Span) (h : ends start) :
    Agrees earlier start (fail fault span : Production α) (fail fault span) ends :=
  fun _ hc => ⟨rfl, hc ▸ h⟩

theorem KeptAt.fail (fault : SyntaxFault) (span : Span) :
    KeptAt earlier start (fail fault span : Production α) (fail fault span) :=
  Agrees.fail fault span rfl

theorem KeptAt.unexpected (what : Expectation) :
    KeptAt earlier start (unexpected what : Production α) (unexpected what) :=
  fun _ hc => ⟨rfl, hc⟩

/-- What is looked at is the same where other faults were reported before. -/
theorem Agrees.get_bind {look look' : Cursor → Production β}
    (h : ∀ c : Cursor, c.depth = start →
      Agrees earlier start (look c) (look' (c.after earlier)) ends) :
    Agrees earlier start (get >>= look) (get >>= look') ends := fun c hc => h c hc c hc

theorem KeptAt.get_bind {look look' : Cursor → Production β}
    (h : ∀ c : Cursor, KeptAt earlier start (look c) (look' (c.after earlier))) :
    KeptAt earlier start (get >>= look) (get >>= look') := Agrees.get_bind fun c _ => h c

theorem KeptAt.advance : KeptAt earlier start (modify (·.advance) : Production PUnit)
    (modify (·.advance)) := by
  intro c hc
  refine ⟨?_, c.depth_advance.trans hc⟩
  change (_, (c.after earlier).advance) = _
  rw [Cursor.after_advance]
  rfl

theorem KeptAt.ite {p' q' : Production α} {condition : Prop} [Decidable condition]
    (h : KeptAt earlier start p q) (h' : KeptAt earlier start p' q') :
    KeptAt earlier start (if condition then p else p') (if condition then q else q') := by
  split
  · exact h
  · exact h'

theorem KeptAt.isNext (kind : TokenKind) :
    KeptAt earlier start (isNext kind) (isNext kind) := fun _ hc => ⟨rfl, hc⟩

theorem KeptAt.accept (kind : TokenKind) : KeptAt earlier start (accept kind) (accept kind) :=
  (KeptAt.isNext kind).bind fun _ => .ite (KeptAt.advance.bind fun _ => .pure _) (.pure _)

theorem KeptAt.expect (what : Expectation) (kind : TokenKind) :
    KeptAt earlier start (expect what kind) (expect what kind) :=
  (KeptAt.accept kind).bind fun _ => .ite (.pure _) (.unexpected what)

theorem KeptAt.keyword (word : Keyword) : KeptAt earlier start (keyword word) (keyword word) :=
  .expect _ _

theorem KeptAt.punctuation (sign : Punctuation) :
    KeptAt earlier start (punctuation sign) (punctuation sign) := .expect _ _

theorem KeptAt.spanFrom (first : Span) : KeptAt earlier start (spanFrom first) (spanFrom first) :=
  fun _ hc => ⟨rfl, hc⟩

/-- Whatever is inside runs one level further in, and only if there is one. -/
theorem KeptAt.inside (h : start < maxNesting → KeptAt earlier (start + 1) p q) :
    KeptAt earlier start (inside p) (inside q) := by
  intro c hc
  subst hc
  by_cases hdepth : c.depth < maxNesting
  · obtain ⟨hrun, hends⟩ := h hdepth { c with depth := c.depth + 1 } rfl
    have hlater : (c.after earlier).depth < maxNesting := hdepth
    have hafter : { c.after earlier with depth := (c.after earlier).depth + 1 } =
        Cursor.after earlier { c with depth := c.depth + 1 } := rfl
    rw [inside_run p hdepth, inside_run q hlater, hafter, hrun]
    refine ⟨rfl, ?_⟩
    change (p { c with depth := c.depth + 1 }).2.depth - 1 = c.depth
    omega
  · have hfails : ∀ (r : Production α) (d : Cursor), d.depth = c.depth →
        Production.inside r d = (.error ⟨.tooDeep, d.peek.span⟩, d) :=
      fun r d hd => if_neg (hd ▸ hdepth)
    rw [hfails p c rfl, hfails q (c.after earlier) rfl]
    exact ⟨rfl, rfl⟩

/-- At whatever depth reading ends, the depth is then again what it was. -/
theorem KeptAt.keepingDepth (h : Agrees earlier start p q ends) :
    KeptAt earlier start (keepingDepth p) (keepingDepth q) := by
  intro c hc
  obtain ⟨hrun, -⟩ := h c hc
  unfold Production.keepingDepth
  rw [hrun]
  exact ⟨rfl, hc⟩

theorem Agrees.enter (h : start < maxNesting) :
    Agrees earlier start enter enter (· = start + 1) := by
  intro c hc
  subst hc
  have henter : Production.enter c = (.ok (), { c with depth := c.depth + 1 }) := if_pos h
  have hlater : Production.enter (c.after earlier) =
      (.ok (), Cursor.after earlier { c with depth := c.depth + 1 }) := if_pos h
  rw [henter, hlater]
  exact ⟨rfl, rfl⟩

theorem KeptAt.commaSeparatedUpTo (h : KeptAt earlier start p q) (limit : Nat) :
    KeptAt earlier start (commaSeparatedUpTo p limit) (commaSeparatedUpTo q limit) := by
  induction limit with
  | zero => exact h.bind fun _ => .pure _
  | succ limit ih =>
    exact h.bind fun _ => (KeptAt.accept _).bind fun _ => .ite (ih.bind fun _ => .pure _) (.pure _)

theorem KeptAt.commaSeparated (h : KeptAt earlier start p q) :
    KeptAt earlier start (commaSeparated p) (commaSeparated q) :=
  fun c hc => KeptAt.commaSeparatedUpTo h c.ahead.length c hc

end Rules

section Turns

variable {item item' : σ → Production σ} {stop : Cursor → Bool}

theorem turn_agrees (h : ∀ s, KeptAt earlier start (item s) (item' s)) (s : σ) {c : Cursor}
    (hc : c.depth = start) :
    turn item' s (c.after earlier) = ((turn item s c).1, (turn item s c).2.after earlier) ∧
      (turn item s c).2.depth = start := by
  obtain ⟨hrun, hdepth⟩ := h s c hc
  unfold turn
  rw [hrun]
  rcases hitem : item s c with ⟨fault | s', d⟩
  · rw [hitem] at hdepth
    refine ⟨congrArg (Prod.mk s) (Cursor.after_recover earlier d _ fault), ?_⟩
    exact (Cursor.depth_recover d _ fault).trans hdepth
  · rw [hitem] at hdepth
    exact ⟨rfl, hdepth⟩

theorem KeptAt.recovering (h : ∀ s, KeptAt earlier start (item s) (item' s))
    (hstop : ∀ c : Cursor, stop (c.after earlier) = stop c) (s : σ) :
    KeptAt earlier start (recovering stop item s) (recovering stop item' s) := by
  have hbounded : ∀ (limit : Nat) (s : σ) (c : Cursor), c.depth = start →
      recoveringUpTo stop item' limit s (c.after earlier) =
          ((recoveringUpTo stop item limit s c).1,
            (recoveringUpTo stop item limit s c).2.after earlier) ∧
        (recoveringUpTo stop item limit s c).2.depth = start := by
    intro limit
    induction limit with
    | zero => exact fun s c hc => ⟨rfl, hc⟩
    | succ limit ih =>
      intro s c hc
      rw [recoveringUpTo_succ, recoveringUpTo_succ, hstop]
      by_cases hstops : stop c = true
      · rw [if_pos hstops, if_pos hstops]
        exact ⟨rfl, hc⟩
      · rw [if_neg hstops, if_neg hstops]
        obtain ⟨hturn, hdepth⟩ := turn_agrees h s hc
        rw [hturn]
        exact ih _ _ hdepth
  intro c hc
  obtain ⟨hrun, hdepth⟩ := hbounded c.ahead.length s c hc
  refine ⟨?_, hdepth⟩
  unfold Production.recovering
  dsimp only [Cursor.after_ahead]
  rw [hrun]

end Turns

section Names

variable {earlier : List (Spanned SyntaxFault)} {start : Nat}

theorem KeptAt.identifier : KeptAt earlier start identifier identifier := by
  refine .get_bind fun c => ?_
  dsimp only [Cursor.after_peek]
  split
  · exact KeptAt.advance.bind fun _ => .pure _
  · exact .unexpected _

theorem KeptAt.qualifiedName : KeptAt earlier start qualifiedName qualifiedName := by
  have hdotted : ∀ limit, KeptAt earlier start (qualifiedName.dotted limit)
      (qualifiedName.dotted limit) := by
    intro limit
    induction limit with
    | zero => exact .pure _
    | succ limit ih =>
      exact (KeptAt.accept _).bind fun _ => .ite
        (KeptAt.identifier.bind fun _ => ih.bind fun _ => .pure _) (.pure _)
  exact KeptAt.identifier.bind fun _ => .get_bind fun c => (hdotted c.ahead.length).bind fun _ =>
    (KeptAt.spanFrom _).bind fun _ => .pure _

end Names

theorem KeptAt.untilParen {α : Type} {earlier : List (Spanned SyntaxFault)} {start : Nat}
    {p q : Production α} (h : KeptAt earlier start p q) :
    KeptAt earlier start (untilParen p) (untilParen q) := by
  have hclose : ∀ found : List α, KeptAt earlier start
      (do Production.punctuation .rightParen; return found)
      (do Production.punctuation .rightParen; return found) :=
    fun _ => (KeptAt.punctuation _).bind fun _ => .pure _
  refine (KeptAt.isNext _).bind fun next => ?_
  cases next with
  | true => exact hclose []
  | false => exact h.commaSeparated.bind hclose

theorem KeptAt.parameters {earlier : List (Spanned SyntaxFault)} {start : Nat} :
    KeptAt earlier start parameters parameters :=
  (KeptAt.punctuation _).bind fun _ => KeptAt.untilParen .identifier

theorem KeptAt.directive {earlier : List (Spanned SyntaxFault)} {start : Nat} (word : Keyword) :
    KeptAt earlier start (directive word) (directive word) :=
  .get_bind fun _ => (KeptAt.keyword word).bind fun _ => KeptAt.qualifiedName.bind fun _ =>
    (KeptAt.punctuation _).bind fun _ => (KeptAt.spanFrom _).bind fun _ => .pure _

end Production

/-- The productions of two levels agree from a depth on. Behind a left operand the depth grows, but
not over what is allowed. -/
structure Level.Agree (earlier : List (Spanned SyntaxFault)) (start : Nat) (l l' : Level) :
    Prop where
  operand : KeptAt earlier start l.operand l'.operand
  chain : ∀ least left,
    Agrees earlier start (l.chain least left) (l'.chain least left) (· ≤ maxNesting)
  statement : KeptAt earlier start l.statement l'.statement
  conditional : KeptAt earlier start l.conditional l'.conditional

/-- The levels below two levels agree one step further in, which is still allowed. -/
inductive Level.AgreeBelow (earlier : List (Spanned SyntaxFault)) (start : Nat) :
    Option Level → Option Level → Prop
  | none (h : start ≤ maxNesting) : AgreeBelow earlier start none none
  | some {l l' : Level} (h : start < maxNesting) (hl : l.Agree earlier (start + 1) l') :
    AgreeBelow earlier start (some l) (some l')

theorem Level.AgreeBelow.le {earlier : List (Spanned SyntaxFault)} {start : Nat}
    {below below' : Option Level} (h : AgreeBelow earlier start below below') :
    start ≤ maxNesting := by
  cases h with
  | none hle => exact hle
  | some hlt => exact Nat.le_of_lt hlt

section Levels

variable {α : Type} {earlier : List (Spanned SyntaxFault)} {start : Nat} {l l' : Level}
  {below below' : Option Level}

theorem Level.Agree.binary (h : l.Agree earlier start l') (hstart : start ≤ maxNesting)
    (least : Nat) : KeptAt earlier start (l.binary least) (l'.binary least) :=
  .keepingDepth <| Agrees.bind h.operand hstart fun left => h.chain least left

theorem Level.Agree.expression (h : l.Agree earlier start l') (hstart : start ≤ maxNesting) :
    KeptAt earlier start l.expression l'.expression := h.binary hstart 1

theorem further_agrees (h : Level.AgreeBelow earlier start below below')
    {p p' : Level → Production α}
    (hp : ∀ l l', start < maxNesting → l.Agree earlier (start + 1) l' →
      KeptAt earlier (start + 1) (p l) (p' l')) :
    KeptAt earlier start (further below p) (further below' p') := by
  cases h with
  | none => exact fun c hc => ⟨rfl, hc⟩
  | some hstart hl => exact .inside fun _ => hp _ _ hstart hl

variable (h : Level.AgreeBelow earlier start below below')

include h

theorem primary_agrees : KeptAt earlier start (primary below) (primary below') := by
  refine .get_bind fun c => ?_
  dsimp only [Cursor.after_peek]
  split
  · exact KeptAt.advance.bind fun _ => .pure _
  · exact KeptAt.advance.bind fun _ => .pure _
  · exact KeptAt.advance.bind fun _ => .pure _
  · exact KeptAt.advance.bind fun _ => .pure _
  · refine KeptAt.advance.bind fun _ => ?_
    refine (further_agrees h fun l l' hstart hl => hl.expression hstart).bind fun _ => ?_
    exact (KeptAt.punctuation _).bind fun _ => (KeptAt.spanFrom _).bind fun _ => .pure _
  · refine KeptAt.qualifiedName.bind fun name => (KeptAt.accept _).bind fun _ => ?_
    refine .ite ?_ (.ite (.pure _) (.fail _ _))
    refine (further_agrees h fun l l' hstart hl => ?_).bind fun _ => (KeptAt.spanFrom _).bind
      fun _ => .pure _
    exact .untilParen (hl.expression hstart)
  · exact .unexpected _

theorem operandOver_agrees : KeptAt earlier start (operandOver below) (operandOver below') := by
  refine .get_bind fun c => ?_
  dsimp only [Cursor.after_peek]
  split
  · split
    · refine KeptAt.advance.bind fun _ => ?_
      exact (further_agrees h fun _ _ _ hl => hl.operand).bind fun _ => .pure _
    · exact primary_agrees h
  · exact primary_agrees h

theorem chainOver_agrees (least : Nat) (left : Expr) : Agrees earlier start
    (chainOver below least left) (chainOver below' least left) (· ≤ maxNesting) := by
  have hnext : KeptAt earlier start (nextOperator least) (nextOperator least) := by
    refine .get_bind fun c => ?_
    dsimp only [Cursor.after_kind]
    split
    · exact .pure _
    · exact .pure _
  refine Agrees.bind hnext h.le fun found => ?_
  cases found with
  | none => exact .pure _ h.le
  | some op =>
    cases h with
    | none hstart => exact .get_bind fun c _ => .fail _ _ hstart
    | some hdepth hl =>
      -- The operator raises the depth for good: what follows it is read at the next level.
      refine (Agrees.enter hdepth).bind hdepth fun _ => ?_
      refine Agrees.bind KeptAt.advance hdepth fun _ => ?_
      exact Agrees.bind (hl.binary hdepth _) hdepth fun right => hl.chain least _

theorem block_agrees : KeptAt earlier start (block below) (block below') := by
  refine further_agrees h fun l l' _ hl => (KeptAt.punctuation _).bind fun _ => ?_
  refine (KeptAt.recovering (fun read => ?_) (fun _ => rfl) []).bind fun _ =>
    (KeptAt.punctuation _).bind fun _ => .pure _
  exact hl.statement.bind fun _ => .pure _

variable {expression expression' : Production Expr}

omit h in
theorem assigned_agrees (he : KeptAt earlier start expression expression') (what : Expectation) :
    KeptAt earlier start (assigned expression what) (assigned expression' what) :=
  (KeptAt.expect what _).bind fun _ => he.bind fun _ => (KeptAt.punctuation _).bind fun _ =>
    .pure _

variable (he : KeptAt earlier start expression expression')

include he

theorem conditionalOver_agrees : KeptAt earlier start (conditionalOver below expression)
    (conditionalOver below' expression') := by
  refine .get_bind fun c => (KeptAt.keyword _).bind fun _ => he.bind fun condition =>
    (block_agrees h).bind fun body => (KeptAt.accept _).bind fun _ => ?_
  refine .ite ?_ ((KeptAt.spanFrom _).bind fun _ => .pure _)
  refine (KeptAt.isNext _).bind fun _ => .ite ?_ ?_
  · refine KeptAt.bind (further_agrees h fun _ _ _ hl => hl.conditional) fun _ => ?_
    exact (KeptAt.pure _).bind fun _ => (KeptAt.spanFrom _).bind fun _ => .pure _
  · exact (block_agrees h).bind fun _ => (KeptAt.spanFrom _).bind fun _ => .pure _

theorem statementOver_agrees : KeptAt earlier start (statementOver below expression)
    (statementOver below' expression') := by
  refine .get_bind fun c => ?_
  dsimp only [Cursor.after_peek, Cursor.after_kind, Cursor.after_secondKind]
  split
  · exact KeptAt.advance.bind fun _ => KeptAt.identifier.bind fun _ =>
      (assigned_agrees he _).bind fun _ => (KeptAt.spanFrom _).bind fun _ => .pure _
  · have hclose : ∀ value : Option Expr, KeptAt earlier start
        (do
          Production.punctuation .semicolon
          return Stmt.return (← Production.spanFrom c.peek.span) value)
        (do
          Production.punctuation .semicolon
          return Stmt.return (← Production.spanFrom c.peek.span) value) :=
      fun _ => (KeptAt.punctuation _).bind fun _ => (KeptAt.spanFrom _).bind fun _ => .pure _
    refine KeptAt.advance.bind fun _ => (KeptAt.isNext _).bind fun _ => .ite (hclose none) ?_
    exact KeptAt.bind (he.bind fun _ => .pure _) hclose
  · exact conditionalOver_agrees h he
  · exact KeptAt.advance.bind fun _ => he.bind fun _ => (block_agrees h).bind fun _ =>
      (KeptAt.spanFrom _).bind fun _ => .pure _
  · split
    · exact KeptAt.advance.bind fun _ => (assigned_agrees he _).bind fun _ =>
        (KeptAt.spanFrom _).bind fun _ => .pure _
    · exact he.bind fun _ => (KeptAt.punctuation _).bind fun _ => (KeptAt.spanFrom _).bind
        fun _ => .pure _

omit he in
theorem Level.over_agrees : (Level.over below).Agree earlier start (Level.over below') := by
  have he : KeptAt earlier start (keepingDepth do chainOver below 1 (← operandOver below))
      (keepingDepth do chainOver below' 1 (← operandOver below')) :=
    .keepingDepth <| Agrees.bind (operandOver_agrees h) h.le fun _ => chainOver_agrees h 1 _
  exact ⟨operandOver_agrees h, chainOver_agrees h, statementOver_agrees h he,
    conditionalOver_agrees h he⟩

end Levels

/-- What stands before the members of a class. -/
def classHead (l : Level) : Production (List Attribute × Spanned String) := do
  let attrs ← attributes l
  keyword .classDecl
  let name ← identifier
  punctuation .leftBrace
  return (attrs, name)

/-- What stands behind the members of a class, which then is read. -/
def classTail (first : Span) (head : List Attribute × Spanned String) (read : List Member) :
    Production ClassDecl := do
  punctuation .rightBrace
  let members := read.reverse
  return ⟨← spanFrom first, head.1, head.2, members.filterMap Member.field?,
    members.filterMap Member.method?⟩

/-- A class is read in three parts, and its members are read in turns. -/
theorem classDecl_eq (l : Level) (below : Option Level) : classDecl l below = (do
    let first := (← get).peek.span
    let head ← classHead l
    let read ← recovering closesBlock (collecting (member l below)) []
    classTail first head read) := by
  unfold classDecl classHead classTail
  simp only [bind_assoc, pure_bind]
  rfl

section Declarations

variable {earlier : List (Spanned SyntaxFault)} {start : Nat} {l l' : Level}
  {below below' : Option Level} (h : l.Agree earlier start l') (hstart : start ≤ maxNesting)

include h hstart

theorem attributeItem_agrees : KeptAt earlier start (attributeItem l) (attributeItem l') := by
  have hmade : ∀ (name : Spanned QualifiedName) (args : List Expr), KeptAt earlier start
      (do return (⟨← Production.spanFrom name.span, name.node, args⟩ : Attribute))
      (do return (⟨← Production.spanFrom name.span, name.node, args⟩ : Attribute)) :=
    fun _ _ => (KeptAt.spanFrom _).bind fun _ => .pure _
  refine KeptAt.qualifiedName.bind fun name => (KeptAt.accept _).bind fun _ => .ite ?_ ?_
  · exact KeptAt.bind (.untilParen (h.expression hstart)) (hmade name)
  · exact (KeptAt.pure []).bind (hmade name)

theorem attributes_agrees : KeptAt earlier start (attributes l) (attributes l') := by
  have hlists : ∀ limit, KeptAt earlier start (attributes.lists l limit)
      (attributes.lists l' limit) := by
    intro limit
    induction limit with
    | zero => exact .pure _
    | succ limit ih =>
      refine (KeptAt.accept _).bind fun _ => .ite ?_ (.pure _)
      exact (attributeItem_agrees h hstart).commaSeparated.bind fun _ =>
        (KeptAt.punctuation _).bind fun _ => ih.bind fun _ => .pure _
  exact .get_bind fun c => hlists c.ahead.length

theorem classHead_agrees : KeptAt earlier start (classHead l) (classHead l') :=
  (attributes_agrees h hstart).bind fun _ => (KeptAt.keyword _).bind fun _ =>
    KeptAt.identifier.bind fun _ => (KeptAt.punctuation _).bind fun _ => .pure _

variable (hbelow : Level.AgreeBelow earlier start below below')

include hbelow

theorem member_agrees : KeptAt earlier start (member l below) (member l' below') := by
  refine .get_bind fun c => (attributes_agrees h hstart).bind fun attrs => .get_bind fun d => ?_
  dsimp only [Cursor.after_kind, Cursor.after_peek]
  split
  · have hread : KeptAt earlier start
        (do
          let name ← Production.identifier
          let value ← Source.assigned l.expression .fieldInitializer
          return Member.field ⟨← Production.spanFrom c.peek.span, name.node, value⟩)
        (do
          let name ← Production.identifier
          let value ← Source.assigned l'.expression .fieldInitializer
          return Member.field ⟨← Production.spanFrom c.peek.span, name.node, value⟩) :=
      KeptAt.identifier.bind fun _ => (assigned_agrees (h.expression hstart) _).bind fun _ =>
        (KeptAt.spanFrom _).bind fun _ => .pure _
    split
    · exact (KeptAt.fail _ _).bind fun _ => KeptAt.advance.bind fun _ => hread
    · exact KeptAt.advance.bind fun _ => hread
  · exact KeptAt.advance.bind fun _ => KeptAt.identifier.bind fun _ =>
      KeptAt.parameters.bind fun _ => (block_agrees hbelow).bind fun _ =>
        (KeptAt.spanFrom _).bind fun _ => .pure _
  · exact .unexpected _

theorem classDecl_agrees : KeptAt earlier start (classDecl l below) (classDecl l' below') := by
  have hmembers : ∀ read, KeptAt earlier start (collecting (member l below) read)
      (collecting (member l' below') read) :=
    fun _ => (member_agrees h hstart hbelow).bind fun _ => .pure _
  rw [classDecl_eq, classDecl_eq]
  refine .get_bind fun c => (classHead_agrees h hstart).bind fun head => ?_
  exact (KeptAt.recovering hmembers (fun _ => rfl) []).bind fun _ =>
    (KeptAt.punctuation _).bind fun _ => (KeptAt.spanFrom _).bind fun _ => .pure _

theorem declaration_agrees (p : Program) :
    KeptAt earlier start (declaration l below p) (declaration l' below' p) := by
  refine .get_bind fun c => ?_
  dsimp only [Cursor.after_kind]
  split
  · refine (KeptAt.directive _).bind fun space => ?_
    split
    · exact .fail _ _
    · exact .pure _
  · exact (KeptAt.directive _).bind fun _ => .pure _
  · exact (classDecl_agrees h hstart hbelow).bind fun _ => .pure _
  · exact (classDecl_agrees h hstart hbelow).bind fun _ => .pure _
  · exact .unexpected _

end Declarations

end TestBench.Source
