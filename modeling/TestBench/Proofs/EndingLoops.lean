import TestBench.Proofs.ReadingProgress

/-!
Reading comes to an end. Every production of the grammar goes on, at every
level, and every item of a loop reads a token or fails; so the loops stop by
themselves and not because they may take no more turns, and all faults of a
file together are no more than its tokens.
-/
namespace TestBench.Source

open Production

namespace Production

variable {c : Cursor}

theorem ConsumesFrom.identifier : ConsumesFrom c identifier := by
  refine .get_bind ?_
  dsimp only
  split
  · next name hname => exact .advance_bind hname nofun fun _ => .pure _
  · exact .unexpected _

theorem dotted_leads (limit : Nat) (c : Cursor) : LeadsFrom c (qualifiedName.dotted limit) := by
  induction limit generalizing c with
  | zero => exact .pure _
  | succ limit ih =>
    refine (PaysFrom.accept _).leads.bind fun _ _ => .ite ?_ (.pure _)
    exact (ConsumesFrom.identifier.leads).bind fun _ e => (ih e).bind fun _ _ => .pure _

theorem ConsumesFrom.qualifiedName : ConsumesFrom c qualifiedName :=
  ConsumesFrom.identifier.bind fun _ _ => .get_bind <| (dotted_leads _ _).bind fun _ _ =>
    (LeadsFrom.spanFrom _).bind fun _ _ => .pure _

theorem ConsumesFrom.untilParen {α : Type} {p : Production α} (h : ∀ d, ConsumesFrom d p) :
    ConsumesFrom c (Production.untilParen p) := by
  refine (PaysFrom.isNext _).bind_consumes fun next d => ?_
  have hclose : ∀ (found : List α) (d : Cursor), ConsumesFrom d (do
      Production.punctuation .rightParen; return found) :=
    fun _ _ => (ConsumesFrom.punctuation _).bind fun _ _ => .pure _
  cases next with
  | true => exact hclose [] d
  | false => exact (ConsumesFrom.commaSeparated h).bind fun found e => (hclose found e).leads

theorem ConsumesFrom.arguments {expression : Production Expr}
    (h : ∀ d, ConsumesFrom d expression) : ConsumesFrom c (arguments expression) := untilParen h

theorem ConsumesFrom.parameters : ConsumesFrom c parameters :=
  (ConsumesFrom.punctuation _).bind fun _ _ => (untilParen fun _ => .identifier).leads

theorem ConsumesFrom.assigned {expression : Production Expr}
    (h : ∀ d, ConsumesFrom d expression) (what : Expectation) :
    ConsumesFrom c (assigned expression what) := by
  have hassign : TokenKind.operator .assign ≠ .endOfFile := nofun
  exact (ConsumesFrom.expect what hassign).bind fun _ d => (h d).leads.bind fun _ _ =>
    (ConsumesFrom.punctuation _).leads.bind fun _ _ => .pure _

theorem ConsumesFrom.directive (word : Keyword) : ConsumesFrom c (directive word) :=
  .get_bind <| (ConsumesFrom.keyword word).bind fun _ _ =>
    ConsumesFrom.qualifiedName.leads.bind fun _ _ => (ConsumesFrom.punctuation _).leads.bind
      fun _ _ => (LeadsFrom.spanFrom _).bind fun _ _ => .pure _

end Production

/-- An item that is put before those that were read. -/
theorem collecting_consumes {α : Type} {p : Production α} (h : ∀ c, ConsumesFrom c p)
    (read : List α) (c : Cursor) : ConsumesFrom c (collecting p read) :=
  (h c).bind fun _ _ => .pure _

/-- The productions of the level that refer further in go on; all but those that follow a left
operand read a token. -/
structure Level.Progresses (l : Level) : Prop where
  operand : ∀ c, ConsumesFrom c l.operand
  chain : ∀ least left c, LeadsFrom c (l.chain least left)
  statement : ∀ c, ConsumesFrom c l.statement
  conditional : ∀ c, ConsumesFrom c l.conditional

section Levels

variable {l : Level} {below : Option Level} {c : Cursor}

theorem Level.Progresses.binary (h : l.Progresses) (least : Nat) :
    ConsumesFrom c (l.binary least) :=
  .keepingDepth <| (h.operand c).bind fun left d => h.chain least left d

theorem Level.Progresses.expression (h : l.Progresses) : ConsumesFrom c l.expression := h.binary 1

variable (hbelow : ∀ l ∈ below, l.Progresses)

include hbelow

theorem primary_consumes : ConsumesFrom c (primary below) := by
  refine .get_bind ?_
  dsimp only
  split
  · next hkind => exact .advance_bind hkind nofun fun _ => .pure _
  · next hkind => exact .advance_bind hkind nofun fun _ => .pure _
  · next hkind => exact .advance_bind hkind nofun fun _ => .pure _
  · next hkind => exact .advance_bind hkind nofun fun _ => .pure _
  · next hkind =>
    refine .advance_bind hkind nofun fun d => ?_
    refine (ConsumesFrom.further fun l hl e => (hbelow l hl).expression).leads.bind fun _ _ => ?_
    exact (ConsumesFrom.punctuation _).leads.bind fun _ _ => (LeadsFrom.spanFrom _).bind
      fun _ _ => .pure _
  · refine ConsumesFrom.qualifiedName.bind fun name d => ?_
    refine (PaysFrom.accept _).leads.bind fun _ e => ?_
    refine .ite ?_ (.ite (.pure _) (ConsumesFrom.fail _ _).leads)
    exact (ConsumesFrom.further fun l hl _ =>
      ConsumesFrom.arguments fun _ => (hbelow l hl).expression).leads.bind fun _ _ =>
        (LeadsFrom.spanFrom _).bind fun _ _ => .pure _
  · exact .unexpected _

theorem operandOver_consumes : ConsumesFrom c (operandOver below) := by
  refine .get_bind ?_
  dsimp only
  split
  · next hkind =>
    split
    · refine .advance_bind hkind nofun fun d => ?_
      exact (ConsumesFrom.further fun l hl e => (hbelow l hl).operand e).leads.bind
        fun _ _ => .pure _
    · exact primary_consumes hbelow
  · exact primary_consumes hbelow

theorem chainOver_leads (least : Nat) (left : Expr) : LeadsFrom c (chainOver below least left) := by
  have hnext : LeadsFrom c (nextOperator least) := by
    refine .get_bind ?_
    split
    · exact .pure _
    · exact .pure _
  refine hnext.bind fun found d => ?_
  split
  · exact .pure _
  · split
    · exact .get_bind (ConsumesFrom.fail _ _).leads
    · next l =>
      have hl := hbelow l rfl
      refine LeadsFrom.enter.bind fun _ e => LeadsFrom.bind e.advance_pays.toLeads fun _ _ => ?_
      exact (hl.binary _).leads.bind fun right e => hl.chain least _ e

theorem block_consumes : ConsumesFrom c (block below) := by
  refine .further fun l hl d => (ConsumesFrom.punctuation _).bind fun _ e => ?_
  have hstop : ∀ c, closesBlock c = false → c.atEnd = false :=
    fun c hc => (Bool.or_eq_false_iff.1 hc).2
  refine (LeadsFrom.recovering (fun read f => ?_) hstop []).bind fun _ _ =>
    (ConsumesFrom.punctuation _).leads.bind fun _ _ => .pure _
  exact ((hbelow l hl).statement f).bind fun _ _ => .pure _

variable {expression : Production Expr} (hexpression : ∀ c, ConsumesFrom c expression)

include hexpression

theorem conditionalOver_consumes : ConsumesFrom c (conditionalOver below expression) := by
  refine .get_bind <| (ConsumesFrom.keyword _).bind fun _ d => (hexpression d).leads.bind fun _ _ =>
    (block_consumes hbelow).leads.bind fun _ _ => (PaysFrom.accept _).leads.bind fun _ _ => ?_
  refine .ite ?_ ((LeadsFrom.spanFrom _).bind fun _ _ => .pure _)
  have hmade : ∀ (condition : Expr) (body otherwise : List Stmt) (d : Cursor), LeadsFrom d (do
      return Stmt.ifElse (← Production.spanFrom c.peek.span) condition body otherwise) :=
    fun _ _ _ _ => (LeadsFrom.spanFrom _).bind fun _ _ => .pure _
  refine (PaysFrom.isNext _).leads.bind fun _ _ => .ite ?_ ?_
  · refine (ConsumesFrom.further fun l hl e => (hbelow l hl).conditional e).leads.bind
      fun nested e => ?_
    exact (LeadsFrom.pure [nested]).bind fun otherwise f => hmade _ _ otherwise f
  · exact (block_consumes hbelow).leads.bind fun otherwise e => hmade _ _ otherwise e

theorem statementOver_consumes : ConsumesFrom c (statementOver below expression) := by
  refine .get_bind ?_
  dsimp only
  split
  · next hkind =>
    refine .advance_bind hkind nofun fun d => ConsumesFrom.identifier.leads.bind fun _ _ => ?_
    exact (ConsumesFrom.assigned hexpression _).leads.bind fun _ _ => (LeadsFrom.spanFrom _).bind
      fun _ _ => .pure _
  · next hkind =>
    refine .advance_bind hkind nofun fun d => (PaysFrom.isNext _).leads.bind fun _ _ => ?_
    have hclose : ∀ (value : Option Expr) (d : Cursor), LeadsFrom d (do
        Production.punctuation .semicolon
        return Stmt.return (← Production.spanFrom c.peek.span) value) :=
      fun _ _ => (ConsumesFrom.punctuation _).leads.bind fun _ _ => (LeadsFrom.spanFrom _).bind
        fun _ _ => .pure _
    refine .ite (hclose none _) ?_
    exact LeadsFrom.bind ((hexpression _).leads.bind fun _ _ => .pure _) fun value e =>
      hclose value e
  · exact conditionalOver_consumes hbelow hexpression
  · next hkind =>
    refine .advance_bind hkind nofun fun d => (hexpression d).leads.bind fun _ _ => ?_
    exact (block_consumes hbelow).leads.bind fun _ _ => (LeadsFrom.spanFrom _).bind
      fun _ _ => .pure _
  · split
    · next hkind _ =>
      refine .advance_bind hkind nofun fun d => ?_
      exact (ConsumesFrom.assigned hexpression _).leads.bind fun _ _ =>
        (LeadsFrom.spanFrom _).bind fun _ _ => .pure _
    · exact (hexpression c).bind fun _ _ => (ConsumesFrom.punctuation _).leads.bind fun _ _ =>
        (LeadsFrom.spanFrom _).bind fun _ _ => .pure _

omit hexpression in
theorem Level.over_progresses : (Level.over below).Progresses := by
  have hexpression : ∀ c, ConsumesFrom c (keepingDepth do
      chainOver below 1 (← operandOver below)) := fun c =>
    .keepingDepth <| (operandOver_consumes hbelow).bind fun _ _ => chainOver_leads hbelow 1 _
  exact ⟨fun _ => operandOver_consumes hbelow, fun _ _ _ => chainOver_leads hbelow _ _,
    fun _ => statementOver_consumes hbelow hexpression,
    fun _ => conditionalOver_consumes hbelow hexpression⟩

end Levels

theorem Level.withRoom_progresses (room : Nat) : (Level.withRoom room).Progresses := by
  induction room with
  | zero => exact Level.over_progresses nofun
  | succ room ih =>
    refine Level.over_progresses fun l hl => ?_
    obtain rfl := Option.some.inj hl
    exact ih

theorem Level.below?_progresses (room : Nat) : ∀ l ∈ Level.below? room, l.Progresses := by
  intro l hl
  cases room with
  | zero => cases hl
  | succ room =>
    obtain rfl := Option.some.inj hl
    exact Level.withRoom_progresses room


section Declarations

variable {l : Level} {below : Option Level} {c : Cursor} (h : l.Progresses)

include h

theorem attributeItem_consumes : ConsumesFrom c (attributeItem l) := by
  refine ConsumesFrom.qualifiedName.bind fun name d => (PaysFrom.accept _).leads.bind fun _ _ => ?_
  have hmade : ∀ (args : List Expr) (d : Cursor), LeadsFrom d (do
      return (⟨← Production.spanFrom name.span, name.node, args⟩ : Attribute)) :=
    fun _ _ => (LeadsFrom.spanFrom _).bind fun _ _ => .pure _
  refine .ite ?_ (hmade [] _)
  exact (ConsumesFrom.arguments fun _ => h.expression).leads.bind fun args e => hmade args e

theorem lists_pays (limit : Nat) (c : Cursor) : PaysFrom c (attributes.lists l limit) := by
  induction limit generalizing c with
  | zero => exact .pure _
  | succ limit ih =>
    refine (PaysFrom.accept _).bind fun _ d => .ite ?_ (.pure _)
    refine (ConsumesFrom.commaSeparated fun _ => attributeItem_consumes h).pays.bind fun _ _ => ?_
    exact (ConsumesFrom.punctuation _).pays.bind fun _ e => (ih e).bind fun _ _ => .pure _

theorem attributes_pays : PaysFrom c (attributes l) := .get_bind (lists_pays h _ c)

variable (hbelow : ∀ l ∈ below, l.Progresses)

include hbelow

theorem member_consumes : ConsumesFrom c (member l below) := by
  refine .get_bind <| (attributes_pays h).bind_consumes fun attrs d => .get_bind ?_
  split
  · next hkind =>
    have hread : ∀ d, LeadsFrom d (do
        let name ← Production.identifier
        let value ← Source.assigned l.expression .fieldInitializer
        return Member.field ⟨← Production.spanFrom c.peek.span, name.node, value⟩) :=
      fun _ => ConsumesFrom.identifier.leads.bind fun _ _ =>
        (ConsumesFrom.assigned (fun _ => h.expression) _).leads.bind fun _ _ =>
          (LeadsFrom.spanFrom _).bind fun _ _ => .pure _
    dsimp only
    split
    · exact (ConsumesFrom.fail _ _).bind fun _ e => LeadsFrom.bind e.advance_pays.toLeads
        fun _ f => hread f
    · exact .advance_bind hkind nofun hread
  · next hkind =>
    refine .advance_bind hkind nofun fun e => ConsumesFrom.identifier.leads.bind fun _ _ => ?_
    exact ConsumesFrom.parameters.leads.bind fun _ _ => (block_consumes hbelow).leads.bind
      fun _ _ => (LeadsFrom.spanFrom _).bind fun _ _ => .pure _
  · exact .unexpected _

theorem classDecl_consumes : ConsumesFrom c (classDecl l below) := by
  refine .get_bind <| (attributes_pays h).bind_consumes fun attrs d => ?_
  refine (ConsumesFrom.keyword _).bind fun _ _ => ConsumesFrom.identifier.leads.bind fun _ _ =>
    (ConsumesFrom.punctuation _).leads.bind fun _ _ => ?_
  have hmembers : ∀ d, LeadsFrom d (recovering closesBlock (collecting (member l below)) []) :=
    fun _ => .recovering (collecting_consumes fun _ => member_consumes h hbelow)
      (fun c hc => (Bool.or_eq_false_iff.1 hc).2) []
  exact (hmembers _).bind fun _ _ => (ConsumesFrom.punctuation _).leads.bind fun _ _ =>
    (LeadsFrom.spanFrom _).bind fun _ _ => .pure _

theorem declaration_consumes (p : Program) : ConsumesFrom c (declaration l below p) := by
  refine .get_bind ?_
  split
  · refine (ConsumesFrom.directive _).bind fun space d => ?_
    split
    · exact (ConsumesFrom.fail _ _).leads
    · exact .pure _
  · exact (ConsumesFrom.directive _).bind fun _ _ => .pure _
  · exact (classDecl_consumes h hbelow).bind fun _ _ => .pure _
  · exact (classDecl_consumes h hbelow).bind fun _ _ => .pure _
  · exact .unexpected _

end Declarations

section Lists

namespace Production

variable {α β : Type} {c : Cursor} {p : Production α}

theorem bind_run_congr {next next' : α → Production β}
    (h : ∀ a d, p c = (.ok a, d) → next a d = next' a d) : (p >>= next) c = (p >>= next') c := by
  rw [bind_run, bind_run]
  rcases hp : p c with ⟨_ | a, d⟩
  · rfl
  · exact h a d hp

theorem accept_length {sign : Punctuation} {d : Cursor}
    (h : accept (.punctuation sign) c = (.ok true, d)) : d.ahead.length < c.ahead.length := by
  rw [accept_run] at h
  by_cases hkind : c.kind = .punctuation sign
  · rw [if_pos hkind] at h
    obtain rfl : c.advance = d := congrArg Prod.snd h
    have hstep := c.length_advance (by rw [hkind]; exact nofun)
    omega
  · rw [if_neg hkind] at h
    cases h

theorem accept_nil {sign : Punctuation} (h : c.ahead = []) :
    accept (.punctuation sign) c = (.ok false, c) := by
  rw [accept_run, if_neg]
  unfold Cursor.kind Cursor.peek
  rw [h]
  exact nofun

/-- A bounded list that takes a token in each turn, and none at the end, is the same under every
bound not below the number of tokens. -/
theorem bound_suffices (list : Nat → Production α)
    (hnone : ∀ n c, c.ahead = [] → list (n + 1) c = list 0 c)
    (hturn : ∀ m n c, (∀ d, d.ahead.length < c.ahead.length → list m d = list n d) →
      list (m + 1) c = list (n + 1) c)
    {m n : Nat} (hm : c.ahead.length ≤ m) (hn : c.ahead.length ≤ n) : list m c = list n c := by
  have hzero : ∀ k d, d.ahead.length ≤ 0 → list k d = list 0 d := by
    intro k d hd
    cases k with
    | zero => rfl
    | succ k => exact hnone k d (List.length_eq_zero_iff.1 (Nat.le_zero.1 hd))
  induction m generalizing n c with
  | zero => exact (hzero n c hm).symm
  | succ m ih =>
    cases n with
    | zero => exact hzero (m + 1) c hn
    | succ n => exact hturn m n c fun d hd => ih (by omega) (by omega)

/-- Separated items are read to the last comma. -/
theorem commaSeparatedUpTo_bound (h : ∀ d, ConsumesFrom d p) {limit : Nat}
    (hlimit : c.ahead.length ≤ limit) : commaSeparatedUpTo p limit c = commaSeparated p c := by
  refine bound_suffices (commaSeparatedUpTo p) (fun n c hc => ?_) (fun m n c hrest => ?_)
    hlimit (Nat.le_refl _)
  · refine bind_run_congr fun a d hp => ?_
    have hread := (h c).of_run hp
    rw [hc, List.length_nil] at hread
    omega
  · refine bind_run_congr fun a d hp => bind_run_congr fun found e haccept => ?_
    have hread := (h c).of_run hp
    cases found with
    | false => rfl
    | true =>
      have hcomma := accept_length haccept
      have hsame := hrest e (by omega)
      simp only [if_true, bind_run, hsame]

/-- Names are read to the last dot. -/
theorem dotted_bound {limit : Nat} (hlimit : c.ahead.length ≤ limit) :
    qualifiedName.dotted limit c = qualifiedName.dotted c.ahead.length c := by
  refine bound_suffices qualifiedName.dotted (fun n c hc => ?_)
    (fun m n c hrest => ?_) hlimit (Nat.le_refl _)
  · simp only [qualifiedName.dotted, bind_run, accept_nil hc]
    rfl
  · refine bind_run_congr fun found d haccept => ?_
    cases found with
    | false => rfl
    | true =>
      have hdot := accept_length haccept
      refine bind_run_congr fun name e hname => ?_
      have hread := (ConsumesFrom.identifier.leads.of_run hname).length_le
      have hsame := hrest e (by omega)
      simp only [bind_run, hsame]

/-- Attributes are read to the last list. -/
theorem lists_bound {l : Level} (h : l.Progresses) {limit : Nat}
    (hlimit : c.ahead.length ≤ limit) : attributes.lists l limit c = attributes l c := by
  refine bound_suffices (attributes.lists l) (fun n c hc => ?_)
    (fun m n c hrest => ?_) hlimit (Nat.le_refl _)
  · simp only [attributes.lists, bind_run, accept_nil hc]
    rfl
  · refine bind_run_congr fun found d haccept => ?_
    cases found with
    | false => rfl
    | true =>
      have hopen := accept_length haccept
      refine bind_run_congr fun found e hfound => bind_run_congr fun _ f hclose => ?_
      have hitems : LeadsFrom d (commaSeparated (attributeItem l)) :=
        (ConsumesFrom.commaSeparated fun _ => attributeItem_consumes h).leads
      have hbracket : LeadsFrom e (punctuation .rightBracket) := (ConsumesFrom.punctuation _).leads
      have hread := ((hitems.of_run hfound).trans (hbracket.of_run hclose)).length_le
      have hsame := hrest f (by omega)
      simp only [bind_run, hsame]

end Production

end Lists

section Reading

open Production

theorem Rule.withRoom_leads {α : Type} (rule : Rule α) (room : Nat) (c : Cursor) :
    c.Leads (rule.withRoom room c).2 := by
  have h := Level.withRoom_progresses room
  have hbelow := Level.below?_progresses room
  cases rule with
  | accept kind => exact (PaysFrom.accept kind).leads
  | expect what kind =>
    exact (PaysFrom.accept kind).leads.bind fun found _ => .ite (.pure _)
      (ConsumesFrom.unexpected what).leads
  | identifier => exact ConsumesFrom.identifier.leads
  | qualifiedName => exact ConsumesFrom.qualifiedName.leads
  | expression => exact h.expression.leads
  | binary least => exact (h.binary least).leads
  | operand => exact (h.operand c).leads
  | primary => exact (primary_consumes hbelow).leads
  | arguments => exact (ConsumesFrom.arguments fun _ => h.expression).leads
  | block => exact (block_consumes hbelow).leads
  | assigned what => exact (ConsumesFrom.assigned (fun _ => h.expression) what).leads
  | statement => exact (h.statement c).leads
  | conditional => exact (h.conditional c).leads
  | attributeItem => exact (attributeItem_consumes h).leads
  | attributes => exact (attributes_pays h).leads
  | parameters => exact ConsumesFrom.parameters.leads
  | member => exact (member_consumes h hbelow).leads
  | classDecl => exact (classDecl_consumes h hbelow).leads
  | directive word => exact (ConsumesFrom.directive word).leads
  | declaration p => exact (declaration_consumes h hbelow p).leads

variable {σ : Type}

theorem Loop.withRoom_consumes (loop : Loop σ) (room : Nat) (s : σ) (c : Cursor) :
    ConsumesFrom c (loop.withRoom room s) := by
  have h := Level.withRoom_progresses room
  have hbelow := Level.below?_progresses room
  cases loop with
  | statements => exact collecting_consumes h.statement s c
  | members => exact collecting_consumes (fun _ => member_consumes h hbelow) s c
  | declarations => exact declaration_consumes h hbelow s

/-- A loop comes to its stop in turns, and in no more of them than there are tokens ahead. -/
theorem Loop.recovering_stops (loop : Loop σ) (room : Nat) (s : σ) (c : Cursor) :
    ∃ s' d, recovering loop.stop (loop.withRoom room) s c = (.ok s', d) ∧
      Turns loop.stop (loop.withRoom room) s c s' d ∧ loop.stop d = true := by
  refine ⟨_, _, rfl, turns_recoveringUpTo _ _ c.ahead.length s c, ?_⟩
  exact recoveringUpTo_stops (loop.withRoom_consumes room) (fun _ => loop.atEnd_eq_false)
    (Nat.le_refl _)

/-- Reading goes on whatever is ahead, and each of its loops ends by itself. -/
structure ReadingGoesOn : Prop where
  rules : ∀ {α : Type} (rule : Rule α) (room : Nat) (c : Cursor), c.Leads (rule.withRoom room c).2
  chains : ∀ (room least : Nat) (left : Expr) (c : Cursor),
    c.Leads ((Level.withRoom room).chain least left c).2
  advancing : ∀ c : Cursor, c.Leads c.advance
  skipping : ∀ c : Cursor, c.Leads c.synchronize ∧ c.SkipsTo c.synchronize
  /-- In a turn, be its item read or left, a token is read. -/
  turns : ∀ {σ : Type} (loop : Loop σ) (room : Nat) (s : σ) (c : Cursor), loop.stop c = false →
    c.Leads (turn (loop.withRoom room) s c).2 ∧
      (turn (loop.withRoom room) s c).2.ahead.length < c.ahead.length
  loops : ∀ {σ : Type} (loop : Loop σ) (room : Nat) (s : σ) (c : Cursor),
    ∃ s' d, recovering loop.stop (loop.withRoom room) s c = (.ok s', d) ∧
      Turns loop.stop (loop.withRoom room) s c s' d ∧ loop.stop d = true
  /-- No bound cuts a list short that allows for all the tokens ahead. -/
  names : ∀ (limit : Nat) (c : Cursor), c.ahead.length ≤ limit →
    qualifiedName.dotted limit c = qualifiedName.dotted c.ahead.length c ∧
      commaSeparatedUpTo identifier limit c = commaSeparated identifier c
  lists : ∀ (room limit : Nat) (c : Cursor), c.ahead.length ≤ limit →
    commaSeparatedUpTo (Level.withRoom room).expression limit c =
        commaSeparated (Level.withRoom room).expression c ∧
      commaSeparatedUpTo (attributeItem (Level.withRoom room)) limit c =
        commaSeparated (attributeItem (Level.withRoom room)) c ∧
      attributes.lists (Level.withRoom room) limit c = attributes (Level.withRoom room) c

theorem readingGoesOn : ReadingGoesOn where
  rules := Rule.withRoom_leads
  chains room least left c := (Level.withRoom_progresses room).chain least left c
  advancing c := c.advance_pays.toLeads
  skipping c := ⟨c.synchronize_pays.toLeads, c.synchronize_skipsTo⟩
  turns loop room s _ hc := turn_leads (loop.withRoom_consumes room) s (loop.atEnd_eq_false hc)
  loops := Loop.recovering_stops
  names _ _ h := ⟨dotted_bound h, commaSeparatedUpTo_bound (fun _ => .identifier) h⟩
  lists room _ _ h :=
    have hroom := Level.withRoom_progresses room
    ⟨commaSeparatedUpTo_bound (fun _ => hroom.expression) h,
      commaSeparatedUpTo_bound (fun _ => attributeItem_consumes hroom) h, lists_bound hroom h⟩

theorem EndsOnce.length_eq_one {c : Cursor} (h : EndsOnce c.ahead) (hend : c.atEnd = true) :
    c.ahead.length = 1 := by
  obtain ⟨before, last, hahead, -, hbefore⟩ := h
  cases before with
  | nil => rw [hahead, List.nil_append, List.length_singleton]
  | cons t before =>
    have hkind : c.kind = t.node := by
      unfold Cursor.kind Cursor.peek
      rw [hahead]
      rfl
    have hnot := hbefore t List.mem_cons_self
    rw [← hkind] at hnot
    exact absurd (by simpa [Cursor.atEnd] using hend) hnot

/-- A program is read in turns until nothing but the end of the file is left, and there are no more
faults than there are tokens before it. -/
theorem Program.ofTokens_ends {tokens : List Token} (h : EndsOnce tokens) :
    (∃ program c, Turns Cursor.atEnd (Loop.declarations.withRoom maxNesting) Program.empty
        (Cursor.start tokens) program c ∧ c.atEnd = true ∧ c.ahead.length = 1 ∧
      ofTokens tokens = (if c.faults.isEmpty then .ok program else .error c.faults)) ∧
    (∀ faults, ofTokens tokens = .error faults → faults.length ≤ tokens.dropLast.length) ∧
    ReadingGoesOn := by
  obtain ⟨program, c, hrun, hturns, hend⟩ :=
    Loop.declarations.recovering_stops maxNesting Program.empty (Cursor.start tokens)
  have hleads : (Cursor.start tokens).Leads c := by
    refine hturns.keep (P := fun _ d => (Cursor.start tokens).Leads d) ?_ (.refl _)
    intro s d hd hs
    exact hs.trans (turn_leads (Loop.withRoom_consumes _ maxNesting) s hd).1
  have hone : c.ahead.length = 1 := (hleads.ends h).length_eq_one hend
  have hresult : ofTokens tokens =
      if c.faults.isEmpty then .ok program else .error c.faults := by
    obtain ⟨hprogram, hc⟩ := Prod.mk.inj hrun
    rw [← Except.ok.inj hprogram, ← hc]
    rfl
  refine ⟨⟨program, c, hturns, hend, hone, hresult⟩, fun faults hfaults => ?_, readingGoesOn⟩
  have hcharge : c.ahead.length + c.faults.length ≤ tokens.length := hleads.charge
  rw [hresult] at hfaults
  split at hfaults
  · cases hfaults
  · obtain rfl := Except.error.inj hfaults
    rw [List.length_dropLast]
    omega

/-- A stray parenthesis is skipped to the semicolon, and a stray brace as the next token. -/
theorem Program.ofTokens_ends_stray :
    ∃ tokens : List Token, EndsOnce tokens ∧ tokens.dropLast.map (·.node) =
        [.punctuation .rightParen, .punctuation .semicolon, .punctuation .rightBrace] ∧
      ∃ faults, ofTokens tokens = .error faults ∧ faults.length = 2 ∧
        faults.length ≤ tokens.dropLast.length := by
  have hends : EndsOnce [⟨.punctuation .rightParen, ⟨0, 1⟩⟩, ⟨.punctuation .semicolon, ⟨1, 2⟩⟩,
      ⟨.punctuation .rightBrace, ⟨2, 3⟩⟩, ⟨.endOfFile, ⟨3, 3⟩⟩] :=
    ⟨[⟨.punctuation .rightParen, ⟨0, 1⟩⟩, ⟨.punctuation .semicolon, ⟨1, 2⟩⟩,
      ⟨.punctuation .rightBrace, ⟨2, 3⟩⟩], ⟨.endOfFile, ⟨3, 3⟩⟩, rfl, rfl, by simp⟩
  obtain ⟨-, hbound, -⟩ := Program.ofTokens_ends hends
  exact ⟨_, hends, rfl, _, rfl, rfl, hbound _ rfl⟩

end Reading

end TestBench.Source
