import TestBench.Proofs.ReadExpressions

/-!
Statements that are spelled are read. Each statement shows by its first token
what it is, except that a name may begin an assignment or an expression; the
token after it decides, because no expression has an equals sign. After a
conditional an `else` would belong to it, so none may follow.
-/
namespace TestBench.Source

open Production

theorem Cursor.At.secondKind {c : Cursor} {first second : TokenKind} {rest : List TokenKind}
    {depth : Nat} (h : c.At (first :: second :: rest) depth) : c.secondKind = second := by
  have hkinds := h.kinds
  unfold Cursor.secondKind
  unfold Cursor.kinds at hkinds
  match hahead : c.ahead with
  | [] | [_] =>
    rw [hahead] at hkinds
    cases hkinds
  | _ :: t :: _ =>
    rw [hahead] at hkinds
    exact (List.cons.inj (List.cons.inj hkinds).2).1

/-- An expression does not begin as an assignment does. -/
theorem Cursor.At.secondKind_ne_assign {c : Cursor} {e : Expr} {rest : List TokenKind} {depth : Nat}
    (h : c.At (e.kinds ++ .punctuation .semicolon :: rest) depth) :
    c.secondKind ≠ .operator .assign := by
  obtain ⟨kind, more, hkinds, -⟩ := e.kinds_begin
  have hassign := e.assign_not_mem
  rw [hkinds] at h hassign
  cases more with
  | nil =>
    rw [h.secondKind]
    simp
  | cons second more =>
    rw [List.cons_append, List.cons_append] at h
    rw [h.secondKind]
    rintro rfl
    simp at hassign

namespace Stmt

theorem bareAll_eq (body : List Stmt) : bareAll body = body.map bare := by
  induction body with
  | nil => rfl
  | cons s rest ih => rw [bareAll, ih, List.map_cons]

theorem levels_le_levelsOfAll {body : List Stmt} : ∀ s ∈ body, s.levels ≤ levelsOfAll body := by
  induction body with
  | nil => exact fun s hs => absurd hs List.not_mem_nil
  | cons t rest ih =>
    rw [levelsOfAll]
    exact List.forall_mem_cons.2 ⟨Nat.le_max_left _ _, fun s hs =>
      Nat.le_trans (ih s hs) (Nat.le_max_right _ _)⟩

end Stmt

namespace Production.Gives

variable {α β γ : Type} {p : Production α} {rest : List TokenKind} {depth : Nat}

/-- Items are read one by one up to a closing brace. -/
theorem recovering {S : β → List TokenKind → Prop} {view : α → γ} {view' : β → γ} {bs : List β}
    {ks : List TokenKind} (hrest : rest.headD .endOfFile = .punctuation .rightBrace)
    (hspelled : Sequence S bs ks) (hopens : ∀ b first, S b first → Opens first)
    (hitems : ∀ b ∈ bs, ∀ first later, S b first → later.headD .endOfFile ≠ .keyword .else →
      Gives p (first ++ later) depth (fun a => view a = view' b) later) :
    Gives (recovering closesBlock (fun read => return (← p) :: read) []) (ks ++ rest) depth
      (fun read => read.reverse.map view = bs.map view') rest := by
  have hall : ∀ (limit : Nat) (bs : List β) (ks : List TokenKind) (read : List α) (c : Cursor),
      ks.length ≤ limit → Sequence S bs ks → c.At (ks ++ rest) depth →
      (∀ b ∈ bs, ∀ first later, S b first → later.headD .endOfFile ≠ .keyword .else →
        Gives p (first ++ later) depth (fun a => view a = view' b) later) →
      ∃ found d, recoveringUpTo closesBlock (fun read => return (← p) :: read) limit read c =
        (found, d) ∧ found.reverse.map view = read.reverse.map view ++ bs.map view' ∧
          d.At rest depth := by
    intro limit
    induction limit with
    | zero =>
      intro bs ks read c hlimit hspelled hc hitems
      obtain rfl := List.eq_nil_of_length_eq_zero (Nat.le_zero.1 hlimit)
      cases bs with
      | nil => exact ⟨read, c, rfl, (List.append_nil _).symm, hc⟩
      | cons b more =>
        obtain ⟨first, later, hfirst, -, hks⟩ := hspelled
        obtain ⟨kind, tail, rfl, -⟩ := hopens b first hfirst
        cases hks
    | succ limit ih =>
      intro bs ks read c hlimit hspelled hc hitems
      cases bs with
      | nil =>
        obtain rfl : ks = [] := hspelled
        have hstop : closesBlock c = true := by
          have hkind : c.kind = .punctuation .rightBrace := hc.kind_eq.trans hrest
          simp [closesBlock, hkind]
        exact ⟨read, c, recoveringUpTo_stop hstop _, (List.append_nil _).symm, hc⟩
      | cons b more =>
        obtain ⟨first, later, hfirst, hlater, hks⟩ := hspelled
        obtain ⟨kind, tail, rfl, hbegins⟩ := hopens b first hfirst
        have hkind : c.kind = kind := by
          rw [hc.kind_eq, hks]
          rfl
        have hstop : closesBlock c = false := by
          rw [closesBlock, Cursor.atEnd, hkind]
          refine Bool.or_eq_false_iff.2 ⟨decide_eq_false ?_, decide_eq_false ?_⟩
          · rintro rfl
            cases hbegins
          · rintro rfl
            cases hbegins
        have hnext : (later ++ rest).headD .endOfFile ≠ .keyword .else :=
          hlater.head_ne_else hopens hrest
        rw [hks, List.append_assoc] at hc
        obtain ⟨a, d, hrun, ha, hd⟩ := hitems b List.mem_cons_self _ _ hfirst hnext c hc
        rw [hks, List.length_append, List.length_cons] at hlimit
        obtain ⟨found, e, hfound, hview, he⟩ := ih more later (a :: read) d (by omega) hlater hd
          fun b hb => hitems b (List.mem_cons_of_mem _ hb)
        have hitem : (do return (← p) :: read : Production (List α)) c = (.ok (a :: read), d) :=
          bind_run_ok hrun rfl
        refine ⟨found, e, (recoveringUpTo_item hstop hitem limit).trans hfound, ?_, he⟩
        rw [hview, List.reverse_cons, List.map_append, List.append_assoc, List.map_singleton, ha,
          List.map_cons, List.singleton_append]
  intro c hc
  obtain ⟨found, d, hrun, hview, hd⟩ := hall c.ahead.length bs ks [] c
    (by rw [hc.length, List.length_append]; omega) hspelled hc hitems
  refine ⟨found, d, ?_, hview, hd⟩
  rw [Production.recovering]
  simp only [hrun]

/-- A block is read if its statements are. -/
theorem block {l : Level} {body : List Stmt} {inner : List TokenKind} (hdepth : depth < maxNesting)
    (hbody : Stmt.AllSpelled body inner)
    (hitems : ∀ s ∈ body, ∀ first later, s.Spelled first →
      later.headD .endOfFile ≠ .keyword .else →
        Gives l.statement (first ++ later) (depth + 1) (·.bare = s.bare) later) :
    Gives (block (some l)) (braced inner ++ rest) depth
      (fun found => found.map Stmt.bare = body.map Stmt.bare) rest := by
  rw [braced, List.cons_append, List.append_assoc]
  refine inside hdepth ((punctuation _).bind fun _ _ => ?_)
  refine (recovering rfl (Stmt.allSpelled_iff.1 hbody) (fun _ _ h => h.opens) hitems).bind
    fun read hread => (punctuation _).bind fun _ _ => .pure hread

section

variable {below : Option Level} {expression : Production Expr} {value : Expr}
  (hvalue : expression.GivesBack value depth)

include hvalue

theorem assigned (what : Expectation) :
    Gives (assigned expression what)
      (.operator .assign :: (value.kinds ++ .punctuation .semicolon :: rest)) depth
      (·.bare = value.bare) rest :=
  (expect what (by simp)).bind fun _ _ =>
    (hvalue _ .semicolon).bind fun _ he =>
      (punctuation _).bind fun _ _ => .pure he

theorem bindStmt (name : String) :
    Gives (statementOver below expression) (.keyword .let :: .identifier name ::
      .operator .assign :: (value.kinds ++ .punctuation .semicolon :: rest)) depth
      (fun s => s.bare = .bind (Span.empty 0) name value.bare) rest := by
  refine get_bind fun c hc => ?_
  have hkind : c.kind = .keyword .let := hc.kind_eq
  rw [hkind]
  refine (advance (by simp)).bind fun _ _ => (identifier name).bind fun s hs =>
    (assigned hvalue _).bind fun e he => (spanFrom _).bind fun _ _ => .pure ?_
  rw [Stmt.bare, hs, he]

theorem assignStmt (target : String) :
    Gives (statementOver below expression) (.identifier target :: .operator .assign ::
      (value.kinds ++ .punctuation .semicolon :: rest)) depth
      (fun s => s.bare = .assign (Span.empty 0) target value.bare) rest := by
  refine get_bind fun c hc => ?_
  have hkind : c.kind = .identifier target := hc.kind_eq
  have hsecond : c.secondKind = .operator .assign := hc.secondKind
  rw [hkind, hsecond]
  refine (advance (by simp)).bind fun _ _ =>
    (assigned hvalue _).bind fun e he => (spanFrom _).bind fun _ _ => .pure ?_
  rw [Stmt.bare, he]

theorem returnStmt :
    Gives (statementOver below expression) (.keyword .return ::
      (value.kinds ++ .punctuation .semicolon :: rest)) depth
      (fun s => s.bare = .return (Span.empty 0) (some value.bare)) rest := by
  refine get_bind fun c hc => ?_
  have hkind : c.kind = .keyword .return := hc.kind_eq
  rw [hkind]
  have hother : decide ((value.kinds ++ .punctuation .semicolon :: rest).headD .endOfFile =
      .punctuation .semicolon) = false := by
    refine decide_eq_false fun hsemicolon => ?_
    have hbegins := value.begins_head (.punctuation .semicolon :: rest)
    rw [hsemicolon] at hbegins
    cases hbegins
  refine (advance (by simp)).bind fun _ _ => (isNext _).bind fun found hfound => ?_
  rw [hfound, hother]
  refine ((hvalue _ .semicolon).map (f := some)
    (B := fun found => found.map Expr.bare = some value.bare) fun _ he => congrArg some he).bind
      fun found hfound => (punctuation _).bind fun _ _ => (spanFrom _).bind fun _ _ => .pure ?_
  rw [Stmt.bare, hfound]

theorem exprStmt :
    Gives (statementOver below expression) (value.kinds ++ .punctuation .semicolon :: rest) depth
      (fun s => s.bare = .expr (Span.empty 0) value.bare) rest := by
  refine get_bind fun c hc => ?_
  have hbegins : beginsExpr c.kind = true := hc.kind_eq ▸ value.begins_head _
  have hmade : Gives (do
      let value ← expression
      Production.punctuation .semicolon
      return Stmt.expr (← Production.spanFrom c.peek.span) value)
      (value.kinds ++ .punctuation .semicolon :: rest) depth
        (fun s => s.bare = .expr (Span.empty 0) value.bare) rest := by
    refine (hvalue _ .semicolon).bind fun e he =>
      (punctuation _).bind fun _ _ => (spanFrom _).bind fun _ _ => .pure ?_
    rw [Stmt.bare, he]
  dsimp only
  split
  · next hkind =>
    rw [hkind] at hbegins
    cases hbegins
  · next hkind =>
    rw [hkind] at hbegins
    cases hbegins
  · next hkind =>
    rw [hkind] at hbegins
    cases hbegins
  · next hkind =>
    rw [hkind] at hbegins
    cases hbegins
  · split
    · next hassign => exact absurd hassign hc.secondKind_ne_assign
    · exact hmade

end

theorem returnNothing {below : Option Level} {expression : Production Expr} :
    Gives (statementOver below expression) (.keyword .return :: .punctuation .semicolon :: rest)
      depth (fun s => s.bare = .return (Span.empty 0) none) rest := by
  refine get_bind fun c hc => ?_
  have hkind : c.kind = .keyword .return := hc.kind_eq
  rw [hkind]
  refine (advance (by simp)).bind fun _ _ => (isNext _).bind fun found hfound => ?_
  rw [hfound]
  exact (punctuation _).bind fun _ _ => (spanFrom _).bind fun _ _ => .pure rfl

section

variable {l : Level} {expression : Production Expr} {condition : Expr}
  {body otherwise : List Stmt} {inner other : List TokenKind}
  (hcondition : expression.GivesBack condition depth)
  (hbody : ∀ rest, Gives (Source.block (some l)) (braced inner ++ rest) depth
    (fun found => found.map Stmt.bare = body.map Stmt.bare) rest)

include hcondition hbody

theorem whileStmt :
    Gives (statementOver (some l) expression)
      (.keyword .while :: (condition.kinds ++ (braced inner ++ rest))) depth
      (fun s => s.bare = .while (Span.empty 0) condition.bare (body.map Stmt.bare)) rest := by
  refine get_bind fun c hc => ?_
  have hkind : c.kind = .keyword .while := hc.kind_eq
  rw [hkind]
  refine (advance (by simp)).bind fun _ _ =>
    (hcondition _ .leftBrace).bind fun e he =>
      (hbody rest).bind fun found hfound => (spanFrom _).bind fun _ _ => .pure ?_
  rw [Stmt.bare, Stmt.bareAll_eq, he, hfound]

theorem ifThenStmt (hrest : rest.headD .endOfFile ≠ .keyword .else) :
    Gives (conditionalOver (some l) expression)
      (.keyword .if :: (condition.kinds ++ (braced inner ++ rest))) depth
      (fun s => s.bare = .ifThen (Span.empty 0) condition.bare (body.map Stmt.bare)) rest := by
  refine get_bind fun c hc => (keyword _).bind fun _ _ =>
    (hcondition _ .leftBrace).bind fun e he =>
      (hbody rest).bind fun read hread => (accept_other hrest).bind fun found hfound => ?_
  rw [hfound]
  refine (spanFrom _).bind fun _ _ => .pure ?_
  rw [Stmt.bare, Stmt.bareAll_eq, he, hread]

/-- After `else` stands a block. -/
theorem ifElseStmt (hother : ∀ rest, Gives (Source.block (some l)) (braced other ++ rest) depth
      (fun found => found.map Stmt.bare = otherwise.map Stmt.bare) rest) :
    Gives (conditionalOver (some l) expression)
      (.keyword .if :: (condition.kinds ++ (braced inner ++ .keyword .else ::
        (braced other ++ rest)))) depth
      (fun s => s.bare = .ifElse (Span.empty 0) condition.bare (body.map Stmt.bare)
        (otherwise.map Stmt.bare)) rest := by
  refine get_bind fun c hc => (keyword _).bind fun _ _ =>
    (hcondition _ .leftBrace).bind fun e he =>
      (hbody _).bind fun read hread => (accept (by simp)).bind fun found hfound => ?_
  rw [hfound]
  refine (isNext _).bind fun nested hnested => ?_
  rw [hnested]
  refine (hother rest).bind fun more hmore => (spanFrom _).bind fun _ _ => .pure ?_
  rw [Stmt.bare, Stmt.bareAll_eq, Stmt.bareAll_eq, he, hread, hmore]

/-- After `else` stands another conditional. -/
theorem ladderStmt {s : Stmt} (hdepth : depth < maxNesting)
    (hother : Gives l.conditional (.keyword .if :: (other ++ rest)) (depth + 1) (·.bare = s.bare)
      rest) :
    Gives (conditionalOver (some l) expression)
      (.keyword .if :: (condition.kinds ++ (braced inner ++ .keyword .else ::
        .keyword .if :: (other ++ rest)))) depth
      (fun found => found.bare = .ifElse (Span.empty 0) condition.bare (body.map Stmt.bare)
        [s.bare]) rest := by
  refine get_bind fun c hc => (keyword _).bind fun _ _ =>
    (hcondition _ .leftBrace).bind fun e he =>
      (hbody _).bind fun read hread => (accept (by simp)).bind fun found hfound => ?_
  rw [hfound]
  refine (isNext _).bind fun nested hnested => ?_
  rw [hnested]
  refine (inside hdepth hother).bind fun t ht => ?_
  refine (pure (A := (· = [t])) rfl).bind fun more hmore => (spanFrom _).bind fun _ _ => .pure ?_
  rw [Stmt.bare, Stmt.bareAll_eq, Stmt.bareAll_eq, he, hread, hmore, List.map_singleton, ht]

end

theorem conditionalStmt {below : Option Level} {expression : Production Expr}
    {ks : List TokenKind} {A : Stmt → Prop}
    (h : Gives (conditionalOver below expression) (.keyword .if :: ks) depth A rest) :
    Gives (statementOver below expression) (.keyword .if :: ks) depth A rest := by
  refine get_bind fun c hc => ?_
  have hkind : c.kind = .keyword .if := hc.kind_eq
  rw [hkind]
  exact h

end Production.Gives

namespace Stmt

/-- There is room at this depth for the levels of the statement. -/
structure Fits (s : Stmt) (m depth : Nat) : Prop where
  grouped : s.Grouped
  levels : s.levels ≤ m
  room : depth + m ≤ maxNesting

/-- The statement is read as it is spelled, and a conditional also after `else`. -/
def Read (s : Stmt) : Prop :=
  ∀ (m depth : Nat) (ks rest : List TokenKind), s.Spelled ks → s.Fits m depth →
    rest.headD .endOfFile ≠ .keyword .else →
      Gives (Level.withRoom m).statement (ks ++ rest) depth (·.bare = s.bare) rest ∧
        (s.isConditional = true →
          Gives (Level.withRoom m).conditional (ks ++ rest) depth (·.bare = s.bare) rest)

theorem statement_eq (m : Nat) : ∃ below,
    (Level.withRoom m).statement = statementOver below (Level.withRoom m).expression := by
  cases m with
  | zero => exact ⟨none, rfl⟩
  | succ m => exact ⟨some (Level.withRoom m), rfl⟩

theorem block_reads {body : List Stmt} {m depth : Nat} {inner : List TokenKind}
    (h : ∀ s ∈ body, s.Read) (hspelled : AllSpelled body inner) (hgrouped : AllGrouped body)
    (hlevels : levelsOfAll body ≤ m) (hroom : depth + (m + 1) ≤ maxNesting)
    (rest : List TokenKind) :
    Gives (block (some (Level.withRoom m))) (braced inner ++ rest) depth
      (fun found => found.map bare = body.map bare) rest := by
  refine Gives.block (by omega) hspelled fun s hs first later hfirst hlater => ?_
  have hlevel := levels_le_levelsOfAll s hs
  exact (h s hs m (depth + 1) first later hfirst ⟨allGrouped_iff.1 hgrouped s hs, by omega,
    by omega⟩ hlater).1

theorem read_bind (span : Span) (name : String) (value : Expr) : (bind span name value).Read := by
  rintro m depth _ rest rfl ⟨hgrouped, hlevels, hroom⟩ -
  obtain ⟨below, hstatement⟩ := statement_eq m
  refine ⟨?_, fun hconditional => by cases hconditional⟩
  rw [hstatement]
  simpa [bare] using Gives.bindStmt (Level.givesBack hgrouped hlevels hroom) name

theorem read_assign (span : Span) (target : String) (value : Expr) :
    (assign span target value).Read := by
  rintro m depth _ rest rfl ⟨hgrouped, hlevels, hroom⟩ -
  obtain ⟨below, hstatement⟩ := statement_eq m
  refine ⟨?_, fun hconditional => by cases hconditional⟩
  rw [hstatement]
  simpa [bare] using Gives.assignStmt (Level.givesBack hgrouped hlevels hroom) target

theorem read_return (span : Span) (value : Option Expr) : (Stmt.return span value).Read := by
  rintro m depth _ rest rfl ⟨hgrouped, hlevels, hroom⟩ -
  obtain ⟨below, hstatement⟩ := statement_eq m
  refine ⟨?_, fun hconditional => by cases hconditional⟩
  rw [hstatement]
  cases value with
  | none => exact Gives.returnNothing
  | some value =>
    simpa [bare] using Gives.returnStmt (Level.givesBack (hgrouped value rfl) hlevels hroom)

theorem read_expr (span : Span) (value : Expr) : (expr span value).Read := by
  rintro m depth _ rest rfl ⟨hgrouped, hlevels, hroom⟩ -
  obtain ⟨below, hstatement⟩ := statement_eq m
  refine ⟨?_, fun hconditional => by cases hconditional⟩
  rw [hstatement]
  simpa [bare] using Gives.exprStmt (Level.givesBack hgrouped hlevels hroom)

theorem read_while (span : Span) (condition : Expr) {body : List Stmt} (h : ∀ s ∈ body, s.Read) :
    (Stmt.while span condition body).Read := by
  rintro m depth _ rest ⟨inner, hinner, rfl⟩ ⟨⟨hcondition, hbody⟩, hlevels, hroom⟩ -
  rw [levels] at hlevels
  obtain ⟨k, rfl, hk⟩ : ∃ k, m = k + 1 ∧ levelsOfAll body ≤ k := Expr.exists_room (by omega)
  refine ⟨?_, fun hconditional => by cases hconditional⟩
  change Gives (statementOver (some (Level.withRoom k)) (Level.withRoom (k + 1)).expression) _ _ _ _
  simpa [bare, bareAll_eq] using Gives.whileStmt (Level.givesBack hcondition (by omega) hroom)
    (block_reads h hinner hbody hk hroom)

/-- A conditional is a statement too. -/
theorem read_conditional {s : Stmt} {m depth : Nat} {ks rest : List TokenKind}
    (h : Gives (Level.withRoom (m + 1)).conditional (.keyword .if :: ks) depth (·.bare = s.bare)
      rest) :
    Gives (Level.withRoom (m + 1)).statement (.keyword .if :: ks) depth (·.bare = s.bare) rest ∧
      (s.isConditional = true → Gives (Level.withRoom (m + 1)).conditional (.keyword .if :: ks)
        depth (·.bare = s.bare) rest) := by
  refine ⟨?_, fun _ => h⟩
  change Gives (statementOver (some (Level.withRoom m)) (Level.withRoom (m + 1)).expression) _ _ _ _
  exact Gives.conditionalStmt h

theorem read_ifThen (span : Span) (condition : Expr) {body : List Stmt} (h : ∀ s ∈ body, s.Read) :
    (ifThen span condition body).Read := by
  rintro m depth _ rest ⟨inner, hinner, rfl⟩ ⟨⟨hcondition, hbody⟩, hlevels, hroom⟩ hrest
  rw [levels] at hlevels
  obtain ⟨k, rfl, hk⟩ : ∃ k, m = k + 1 ∧ levelsOfAll body ≤ k := Expr.exists_room (by omega)
  refine read_conditional ?_
  change Gives (conditionalOver (some (Level.withRoom k)) (Level.withRoom (k + 1)).expression)
    _ _ _ _
  simpa [bare, bareAll_eq] using Gives.ifThenStmt (Level.givesBack hcondition (by omega) hroom)
    (block_reads h hinner hbody hk hroom) hrest

theorem read_ifElse (span : Span) (condition : Expr) {body otherwise : List Stmt}
    (h : ∀ s ∈ body, s.Read) (hother : ∀ s ∈ otherwise, s.Read) :
    (ifElse span condition body otherwise).Read := by
  rintro m depth _ rest ⟨inner, other, branch, hinner, hspelled, hbranch, rfl⟩
    ⟨⟨hcondition, hbody, hotherwise⟩, hlevels, hroom⟩ hrest
  rw [levels] at hlevels
  obtain ⟨k, rfl, hk⟩ : ∃ k, m = k + 1 ∧ max (levelsOfAll body) (levelsOfAll otherwise) ≤ k :=
    Expr.exists_room (by omega)
  have hvalue := Level.givesBack hcondition (m := k + 1) (by omega) hroom
  have hblock := block_reads h hinner hbody (m := k) (by omega) hroom
  refine read_conditional ?_
  change Gives (conditionalOver (some (Level.withRoom k)) (Level.withRoom (k + 1)).expression)
    _ _ _ _
  -- A block and a conditional take the same level.
  rcases hbranch with rfl | ⟨rfl, s, rfl, hconditional⟩
  · simpa [bare, bareAll_eq] using Gives.ifElseStmt hvalue hblock
      (block_reads hother hspelled hotherwise (m := k) (by omega) hroom)
  · obtain ⟨first, _, hfirst, rfl, rfl⟩ := hspelled
    obtain ⟨more, rfl⟩ := hfirst.conditional hconditional
    rw [levelsOfAll] at hk
    have hnested := (hother s List.mem_cons_self k (depth + 1) _ rest hfirst ⟨hotherwise.1,
      by omega, by omega⟩ hrest).2 hconditional
    simpa [bare, bareAll_eq] using Gives.ladderStmt hvalue hblock (by omega) hnested

mutual

theorem read : ∀ s : Stmt, s.Read
  | bind span name value => read_bind span name value
  | assign span target value => read_assign span target value
  | «return» span value => read_return span value
  | ifThen span condition body => read_ifThen span condition (readAll body)
  | ifElse span condition body otherwise =>
    read_ifElse span condition (readAll body) (readAll otherwise)
  | «while» span condition body => read_while span condition (readAll body)
  | expr span value => read_expr span value

theorem readAll : ∀ body : List Stmt, ∀ s ∈ body, s.Read
  | [] => fun _ hs => absurd hs List.not_mem_nil
  | s :: rest => List.forall_mem_cons.2 ⟨s.read, readAll rest⟩

end

end Stmt

end TestBench.Source
