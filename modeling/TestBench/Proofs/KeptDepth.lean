import TestBench.Proofs.AgreeingReadings

/-!
The nesting that reading keeps count of. A level is watched if anything else may
happen as soon as it is entered at another depth than its own, or is left too
deep; still it reads the same. So the count always is what the levels below leave
of the levels that there are, it comes back to where it was, and nothing that was
read before has a part in what is read next.
-/
namespace TestBench.Source

open Production

section Watched

/-- Runs the production where exactly so many further levels are left and if it ends no deeper than
is allowed; otherwise the alarm goes off, which may be anything. -/
def Production.watched {α : Type} (room : Nat) (alarm p : Production α) : Production α := fun c =>
  if c.depth + room = maxNesting ∧ (p c).2.depth ≤ maxNesting then p c else alarm c

/-- The level with all that it reads watched. -/
def Level.guarded (l : Level) (room : Nat) (alarm : Level) : Level :=
  ⟨.watched room alarm.operand l.operand,
    fun least left => .watched room (alarm.chain least left) (l.chain least left),
    .watched room alarm.statement l.statement, .watched room alarm.conditional l.conditional⟩

/-- The productions under which so many further levels may be opened, each of them watched. -/
def Level.watched (alarm : Level) : Nat → Level
  | 0 => (Level.over none).guarded 0 alarm
  | room + 1 => (Level.over (some (watched alarm room))).guarded (room + 1) alarm

def Level.watchedBelow? (alarm : Level) : Nat → Option Level
  | 0 => none
  | room + 1 => some (Level.watched alarm room)

/-- The production of a rule over levels that are watched. -/
def Rule.watched {α : Type} (rule : Rule α) (alarm : Level) (room : Nat) : Production α :=
  rule.atLevel (Level.watched alarm room) (Level.watchedBelow? alarm room)

variable {α σ : Type} {earlier : List (Spanned SyntaxFault)} {start room : Nat} {alarm : Level}

theorem Production.Agrees.watched {p q r : Production α} {ends : Nat → Prop}
    (h : Agrees earlier start p q ends) (hroom : start + room = maxNesting)
    (hends : ∀ depth, ends depth → depth ≤ maxNesting) :
    Agrees earlier start p (.watched room r q) ends := by
  intro c hc
  obtain ⟨hrun, hdepth⟩ := h c hc
  have hquiet : (c.after earlier).depth + room = maxNesting ∧
      (q (c.after earlier)).2.depth ≤ maxNesting := by
    refine ⟨?_, ?_⟩
    · rw [Cursor.after_depth, hc, hroom]
    · rw [hrun]
      exact hends _ hdepth
  unfold Production.watched
  rw [if_pos hquiet]
  exact ⟨hrun, hdepth⟩

theorem Level.Agree.guarded {l l' : Level} (h : l.Agree earlier start l')
    (hroom : start + room = maxNesting) : l.Agree earlier start (l'.guarded room alarm) := by
  have hstart : ∀ depth, depth = start → depth ≤ maxNesting := fun _ hdepth => by omega
  exact ⟨Agrees.watched h.operand hroom hstart,
    fun least left => Agrees.watched (h.chain least left) hroom fun _ hle => hle,
    Agrees.watched h.statement hroom hstart, Agrees.watched h.conditional hroom hstart⟩

/-- No alarm goes off at the depth at which the levels below are all that are left. -/
theorem Level.watched_agrees (hroom : start + room = maxNesting) :
    (Level.withRoom room).Agree earlier start (Level.watched alarm room) := by
  -- The depth and the room add up to the same at each level, so that the depth is free to grow.
  induction room generalizing start with
  | zero => exact (Level.over_agrees (.none (by omega))).guarded hroom
  | succ room ih => exact (Level.over_agrees (.some (by omega) (ih (by omega)))).guarded hroom

theorem Level.watchedBelow?_agrees (hroom : start + room = maxNesting) :
    AgreeBelow earlier start (below? room) (watchedBelow? alarm room) := by
  cases room with
  | zero => exact .none (by omega)
  | succ room => exact .some (by omega) (Level.watched_agrees (by omega))

theorem Rule.watched_agrees (rule : Rule α) (alarm : Level) (hroom : start + room = maxNesting) :
    KeptAt earlier start (rule.withRoom room) (rule.watched alarm room) := by
  have h : (Level.withRoom room).Agree earlier start (Level.watched alarm room) :=
    Level.watched_agrees hroom
  have hbelow : Level.AgreeBelow earlier start (Level.below? room)
      (Level.watchedBelow? alarm room) := Level.watchedBelow?_agrees hroom
  have hstart := hbelow.le
  cases rule with
  | accept kind => exact .accept kind
  | expect what kind => exact .expect what kind
  | identifier => exact .identifier
  | qualifiedName => exact .qualifiedName
  | expression => exact h.expression hstart
  | binary least => exact h.binary hstart least
  | operand => exact h.operand
  | primary => exact primary_agrees hbelow
  | arguments => exact .untilParen (h.expression hstart)
  | block => exact block_agrees hbelow
  | assigned what => exact assigned_agrees (h.expression hstart) what
  | statement => exact h.statement
  | conditional => exact h.conditional
  | attributeItem => exact attributeItem_agrees h hstart
  | attributes => exact attributes_agrees h hstart
  | parameters => exact .parameters
  | member => exact member_agrees h hstart hbelow
  | classDecl => exact classDecl_agrees h hstart hbelow
  | directive word => exact .directive word
  | declaration p => exact declaration_agrees h hstart hbelow p

end Watched

section Afresh

variable {α σ : Type} {earlier : List (Spanned SyntaxFault)} {start room : Nat}

theorem Cursor.after_nil (c : Cursor) : c.after [] = c := rfl

/-- What agrees with something whatever was reported before agrees with itself. -/
theorem Production.KeptAt.alone {p q : Production α} (h : ∀ earlier, KeptAt earlier start p q) :
    KeptAt earlier start p p := by
  intro c hc
  obtain ⟨hrun, hdepth⟩ := h earlier c hc
  obtain ⟨hsame, -⟩ := h [] (c.after earlier) hc
  rw [Cursor.after_nil, Cursor.after_nil] at hsame
  exact ⟨hsame.symm.trans hrun, hdepth⟩

theorem Rule.withRoom_kept (rule : Rule α) (hroom : start + room = maxNesting) :
    KeptAt earlier start (rule.withRoom room) (rule.withRoom room) :=
  .alone fun _ => rule.watched_agrees (Level.over none) hroom

/-- What is read here is what would be read here if no fault had been reported before. -/
def Production.ReadsAfresh (p : Production α) (c : Cursor) : Prop :=
  p c = ((p { c with faults := [] }).1, (p { c with faults := [] }).2.after c.faults)

theorem Rule.readsAfresh (rule : Rule α) {c : Cursor} (hroom : c.depth + room = maxNesting) :
    (rule.withRoom room).ReadsAfresh c := by
  have hkept : KeptAt c.faults c.depth (rule.withRoom room) (rule.withRoom room) :=
    rule.withRoom_kept hroom
  obtain ⟨hrun, -⟩ := hkept { c with faults := [] } rfl
  have hc : Cursor.after c.faults { c with faults := [] } = c := by
    unfold Cursor.after
    rw [List.append_nil]
  rwa [hc] at hrun

theorem Loop.withRoom_kept (loop : Loop σ) (hroom : start + room = maxNesting) (s : σ) :
    KeptAt earlier start (loop.withRoom room s) (loop.withRoom room s) := by
  cases loop with
  | statements => exact (Rule.statement.withRoom_kept hroom).bind fun _ => .pure _
  | members => exact (Rule.member.withRoom_kept hroom).bind fun _ => .pure _
  | declarations => exact (Rule.declaration s).withRoom_kept hroom

/-- Every turn of a loop begins at the depth at which the first one did. -/
theorem Loop.turns_depth (loop : Loop σ) {s s' : σ} {c d : Cursor}
    (hroom : c.depth + room = maxNesting)
    (h : Turns loop.stop (loop.withRoom room) s c s' d) : d.depth = c.depth := by
  refine h.keep (P := fun _ d => d.depth = c.depth) (fun s d _ hd => ?_) rfl
  have hitems : ∀ s, KeptAt [] c.depth (loop.withRoom room s) (loop.withRoom room s) :=
    loop.withRoom_kept hroom
  exact (turn_agrees hitems s hd).2

/-- What is inside of something is run no deeper than is allowed. -/
theorem inside_congr {p q : Production α} (h : ∀ c : Cursor, c.depth ≤ maxNesting → p c = q c) :
    inside p = inside q := by
  funext c
  by_cases hdepth : c.depth < maxNesting
  · have hsame : p { c with depth := c.depth + 1 } = q { c with depth := c.depth + 1 } :=
      h _ hdepth
    rw [inside_run p hdepth, inside_run q hdepth, hsame]
  · unfold inside
    rw [if_neg hdepth, if_neg hdepth]

theorem depth_enter_le {c : Cursor} (h : c.depth ≤ maxNesting) :
    (enter c).2.depth ≤ maxNesting := by
  unfold enter
  split
  · next hdepth => exact hdepth
  · exact h

/-- Reading comes back to the depth at which it began, and no level goes deeper than is allowed. So
each declaration and each member of a class is read from no depth. -/
theorem Rule.depth_kept :
    (∀ {α : Type} (rule : Rule α) (c : Cursor), c.depth ≤ maxNesting →
      (rule.withRoom (maxNesting - c.depth) c).2.depth = c.depth ∧ ∀ alarm,
        rule.watched alarm (maxNesting - c.depth) c = rule.withRoom (maxNesting - c.depth) c) ∧
    (∀ {α : Type} (p q : Production α), (∀ c : Cursor, c.depth ≤ maxNesting → p c = q c) →
      inside p = inside q) ∧
    (∀ c : Cursor, c.depth ≤ maxNesting → (enter c).2.depth ≤ maxNesting) ∧
    ∀ (tokens : List Token) (program : Program) (c : Cursor),
      Turns Cursor.atEnd (Loop.declarations.withRoom maxNesting) Program.empty
        (Cursor.start tokens) program c →
      c.depth = 0 ∧ ((Rule.declaration program).withRoom maxNesting).ReadsAfresh c ∧
        ∀ (head : List Attribute × Spanned String) (first : Cursor) (read : List Member)
          (d : Cursor), classHead (Level.withRoom maxNesting) c = (.ok head, first) →
          Turns closesBlock (Loop.members.withRoom maxNesting) [] first read d →
          d.depth = 0 ∧ (Rule.member.withRoom maxNesting).ReadsAfresh d := by
  refine ⟨fun rule c hc => ?_, fun _ _ => inside_congr, fun _ => depth_enter_le,
    fun tokens program c hturns => ?_⟩
  · have hroom : c.depth + (maxNesting - c.depth) = maxNesting := by omega
    refine ⟨?_, fun alarm => ?_⟩
    · have hkept : KeptAt [] c.depth (rule.withRoom (maxNesting - c.depth))
          (rule.withRoom (maxNesting - c.depth)) := rule.withRoom_kept hroom
      exact (hkept c rfl).2
    · have hwatched : KeptAt [] c.depth (rule.withRoom (maxNesting - c.depth))
          (rule.watched alarm (maxNesting - c.depth)) := rule.watched_agrees alarm hroom
      exact (hwatched c rfl).1
  · have hstart : (Cursor.start tokens).depth + maxNesting = maxNesting := Nat.zero_add _
    have hdepth : c.depth = 0 := Loop.declarations.turns_depth hstart hturns
    have hroom : c.depth + maxNesting = maxNesting := by rw [hdepth, Nat.zero_add]
    refine ⟨hdepth, Rule.readsAfresh _ hroom, fun head first read d hhead hmembers => ?_⟩
    have hlevel :
        (Level.withRoom maxNesting).Agree [] 0 (Level.watched (Level.over none) maxNesting) :=
      Level.watched_agrees (Nat.zero_add _)
    have hfirst : first.depth = 0 := by
      have hkept := ((classHead_agrees hlevel (Nat.zero_le _)) c hdepth).2
      rwa [hhead] at hkept
    have hd : d.depth = 0 := by
      have hmember : d.depth = first.depth :=
        Loop.members.turns_depth (by rw [hfirst, Nat.zero_add]) hmembers
      rw [hmember, hfirst]
    exact ⟨hd, Rule.readsAfresh _ (by rw [hd, Nat.zero_add])⟩

/-- A class with a field that opens more parentheses than is allowed, and then a plain field. -/
def buriedField : List Token :=
  let opening : List TokenKind := [.keyword .classDecl, .identifier "C", .punctuation .leftBrace,
    .keyword .let, .identifier "x", .operator .assign]
  let closing : List TokenKind := [.text "1", .punctuation .semicolon, .keyword .let,
    .identifier "y", .operator .assign, .text "2", .punctuation .semicolon,
    .punctuation .rightBrace, .endOfFile]
  (opening ++ List.replicate (maxNesting + 1) (TokenKind.punctuation .leftParen) ++ closing).map
    fun kind => ⟨kind, Span.empty 0⟩

theorem buriedField_tooDeep :
    let read := classHead (Level.withRoom maxNesting) (Cursor.start buriedField)
    let next := turn (Loop.members.withRoom maxNesting) [] read.2
    read.1.isOk = true ∧ closesBlock read.2 = false ∧ next.2.faults.map (·.node) = [.tooDeep] ∧
      (Rule.member.withRoom maxNesting next.2).1.isOk = true := by
  decide +kernel

/-- The field behind the one that is too deep is read from no depth, and without a fault. -/
theorem Rule.depth_kept_buried : ∃ head first read d,
    classHead (Level.withRoom maxNesting) (Cursor.start buriedField) = (.ok head, first) ∧
    Turns closesBlock (Loop.members.withRoom maxNesting) [] first read d ∧
    d.faults.map (·.node) = [.tooDeep] ∧ d.depth = 0 ∧
    (Rule.member.withRoom maxNesting).ReadsAfresh d ∧
    (Rule.member.withRoom maxNesting d).1.isOk = true := by
  obtain ⟨hhead, hopen, hfaults, hnext⟩ := buriedField_tooDeep
  cases hread : classHead (Level.withRoom maxNesting) (Cursor.start buriedField) with
  | mk result first =>
    rw [hread] at hhead hopen hfaults hnext
    cases result with
    | error fault => cases hhead
    | ok head =>
      have hturn : Turns closesBlock (Loop.members.withRoom maxNesting) [] first
          (turn (Loop.members.withRoom maxNesting) [] first).1
          (turn (Loop.members.withRoom maxNesting) [] first).2 := .step hopen (.refl _ _)
      obtain ⟨-, -, hmembers⟩ := Rule.depth_kept.2.2.2 buriedField Program.empty _ (.refl _ _)
      obtain ⟨hdepth, hafresh⟩ := hmembers head first _ _ hread hturn
      exact ⟨head, first, _, _, rfl, hturn, hfaults, hdepth, hafresh, hnext⟩

end Afresh

end TestBench.Source
