import TestBench.Proofs.NestingReached
import TestBench.Proofs.SpelledProductions

/-!
What productions make of tokens that spell something. The productions of a level
read every expression that leads no further in than there are levels below, and
stop where the expression ends: there an operator would have to bind more
loosely than what was read, and a name must not go on.
-/
namespace TestBench.Source

/-- These are the tokens ahead, at this depth, and no fault was reported. -/
structure Cursor.At (c : Cursor) (ks : List TokenKind) (depth : Nat) : Prop where
  kinds : c.kinds = ks
  depth : c.depth = depth
  faults : c.faults = []

namespace Cursor.At

variable {c : Cursor} {kind : TokenKind} {ks : List TokenKind} {depth : Nat}

theorem kind_eq (h : c.At ks depth) : c.kind = ks.headD .endOfFile := by
  rw [c.kind_eq, h.kinds]

theorem length (h : c.At ks depth) : c.ahead.length = ks.length := by
  rw [← h.kinds, Cursor.kinds, List.length_map]

theorem at_depth (h : c.At ks depth) (other : Nat) : Cursor.At { c with depth := other } ks other :=
  ⟨h.kinds, rfl, h.faults⟩

theorem advance (hend : kind ≠ .endOfFile) (h : c.At (kind :: ks) depth) :
    c.advance.At ks depth := by
  have hkind : c.kind = kind := h.kind_eq
  rcases c.kinds_advance with ⟨-, hstop⟩ | ⟨hkinds, -⟩
  · exact absurd (hkind.symm.trans hstop) hend
  · rw [h.kinds] at hkinds
    exact ⟨(List.cons.inj hkinds).2.symm, c.depth_advance.trans h.depth,
      c.faults_advance.trans h.faults⟩

end Cursor.At

/-- No expression goes on with what comes next. -/
def Ends (rest : List TokenKind) : Prop :=
  ∃ sign, rest.headD .endOfFile = .punctuation sign ∧ sign ≠ .dot ∧ sign ≠ .leftParen

theorem Ends.semicolon {rest : List TokenKind} : Ends (.punctuation .semicolon :: rest) :=
  ⟨.semicolon, rfl, by simp, by simp⟩

theorem Ends.rightParen {rest : List TokenKind} : Ends (.punctuation .rightParen :: rest) :=
  ⟨.rightParen, rfl, by simp, by simp⟩

theorem Ends.leftBrace {rest : List TokenKind} : Ends (.punctuation .leftBrace :: rest) :=
  ⟨.leftBrace, rfl, by simp, by simp⟩

/-- No name goes on with what comes next, and it is not the name of a call. -/
structure Leaves (rest : List TokenKind) : Prop where
  dot : rest.headD .endOfFile ≠ .punctuation .dot
  leftParen : rest.headD .endOfFile ≠ .punctuation .leftParen

theorem Ends.leaves {rest : List TokenKind} (h : Ends rest) : Leaves rest := by
  obtain ⟨sign, hnext, hdot, hparen⟩ := h
  constructor
  · rw [hnext]
    simpa using hdot
  · rw [hnext]
    simpa using hparen

theorem Ends.unbound {rest : List TokenKind} (h : Ends rest) (least : Nat) :
    Unbound least rest := by
  obtain ⟨sign, hnext, -⟩ := h
  intro op hop
  rw [hnext] at hop
  cases hop

theorem Unbound.mono {least more : Nat} {rest : List TokenKind} (h : Unbound least rest)
    (hmore : least ≤ more) : Unbound more rest := fun op hop => Nat.lt_of_lt_of_le (h op hop) hmore

namespace Expr

theorem bareAll_eq (es : List Expr) : bareAll es = es.map bare := by
  induction es with
  | nil => rfl
  | cons e rest ih => rw [bareAll, ih, List.map_cons]

end Expr

namespace Production

variable {α β γ : Type}

/-- At this depth the production reads the tokens before `rest`, and gives what it should. -/
def Gives (p : Production α) (ks : List TokenKind) (depth : Nat) (A : α → Prop)
    (rest : List TokenKind) : Prop :=
  ∀ c : Cursor, c.At ks depth → ∃ a d, p c = (.ok a, d) ∧ A a ∧ d.At rest depth

/-- The production reads the expression at this depth, up to what cannot go on with it. -/
def GivesBack (p : Production Expr) (e : Expr) (depth : Nat) : Prop :=
  ∀ rest, Ends rest → Gives p (e.kinds ++ rest) depth (·.bare = e.bare) rest

namespace Gives

variable {p : Production α} {next : α → Production β} {A A' : α → Prop} {B : β → Prop}
  {ks between rest : List TokenKind} {depth : Nat} {kind : TokenKind}

theorem mono (h : Gives p ks depth A rest) (hA : ∀ a, A a → A' a) : Gives p ks depth A' rest := by
  intro c hc
  obtain ⟨a, d, hrun, ha, hd⟩ := h c hc
  exact ⟨a, d, hrun, hA a ha, hd⟩

theorem pure {a : α} (ha : A a) : Gives (pure a) ks depth A ks :=
  fun c hc => ⟨a, c, rfl, ha, hc⟩

theorem bind (h : Gives p ks depth A between)
    (hnext : ∀ a, A a → Gives (next a) between depth B rest) :
    Gives (p >>= next) ks depth B rest := by
  intro c hc
  obtain ⟨a, d, hrun, ha, hd⟩ := h c hc
  obtain ⟨b, e, hnextRun, hb, he⟩ := hnext a ha d hd
  exact ⟨b, e, bind_run_ok hrun hnextRun, hb, he⟩

theorem map {f : α → β} (h : Gives p ks depth A rest) (hB : ∀ a, A a → B (f a)) :
    Gives (f <$> p) ks depth B rest := h.bind fun a ha => .pure (hB a ha)

theorem get_bind {next : Cursor → Production β}
    (h : ∀ c : Cursor, c.At ks depth → Gives (next c) ks depth B rest) :
    Gives (get >>= next) ks depth B rest := fun c hc => h c hc c hc

theorem advance (hend : kind ≠ .endOfFile) :
    Gives (modify (·.advance) : Production PUnit) (kind :: ks) depth (fun _ => True) ks :=
  fun c hc => ⟨⟨⟩, c.advance, rfl, trivial, hc.advance hend⟩

theorem inside (hdepth : depth < maxNesting) (h : Gives p ks (depth + 1) A rest) :
    Gives (inside p) ks depth A rest := by
  intro c hc
  obtain ⟨a, d, hrun, ha, hd⟩ := h { c with depth := c.depth + 1 } (hc.depth ▸ hc.at_depth _)
  refine ⟨a, _, inside_run_ok (hc.depth ▸ hdepth) hrun, ha, ?_⟩
  rw [hd.depth]
  exact hd.at_depth depth

theorem isNext (kind : TokenKind) :
    Gives (isNext kind) ks depth (· = decide (ks.headD .endOfFile = kind)) ks := by
  refine get_bind fun c hc => .pure ?_
  rw [hc.kind_eq]

theorem accept (hend : kind ≠ .endOfFile) :
    Gives (accept kind) (kind :: ks) depth (· = true) ks := by
  refine (isNext kind).bind fun found hfound => ?_
  rw [hfound, List.headD_cons, decide_eq_true rfl]
  exact (advance hend).bind fun _ _ => .pure rfl

theorem accept_other (h : ks.headD .endOfFile ≠ kind) :
    Gives (Production.accept kind) ks depth (· = false) ks := by
  refine (isNext kind).bind fun found hfound => ?_
  rw [hfound, decide_eq_false h]
  exact .pure rfl

theorem expect (what : Expectation) (hend : kind ≠ .endOfFile) :
    Gives (expect what kind) (kind :: ks) depth (fun _ => True) ks := by
  refine (accept hend).bind fun found hfound => ?_
  rw [hfound]
  exact .pure trivial

theorem keyword (word : Keyword) :
    Gives (keyword word) (.keyword word :: ks) depth (fun _ => True) ks := expect _ (by simp)

theorem punctuation (sign : Punctuation) :
    Gives (punctuation sign) (.punctuation sign :: ks) depth (fun _ => True) ks :=
  expect _ (by simp)

theorem spanFrom (first : Span) : Gives (spanFrom first) ks depth (fun _ => True) ks :=
  get_bind fun _ _ => .pure trivial

theorem identifier (name : String) :
    Gives identifier (.identifier name :: ks) depth (·.node = name) ks := by
  refine get_bind fun c hc => ?_
  have hkind : c.peek.node = .identifier name := hc.kind_eq
  simp only [hkind]
  exact (advance (by simp)).bind fun _ _ => .pure rfl

/-- Items are read one by one if each of them is read before a comma and before what follows the
list. -/
theorem commaSeparated {S : β → List TokenKind → Prop} {view : α → γ} {view' : β → γ}
    (hrest : rest.headD .endOfFile ≠ .punctuation .comma) :
    ∀ {bs : List β} {ks : List TokenKind}, Listed S bs ks →
      (∀ b ∈ bs, ∀ first later, S b first →
        later = rest ∨ later.headD .endOfFile = .punctuation .comma →
          Gives p (first ++ later) depth (fun a => view a = view' b) later) →
      Gives (commaSeparated p) (ks ++ rest) depth (fun as => as.map view = bs.map view') rest := by
  have hall : ∀ (limit : Nat) (bs : List β) (ks : List TokenKind), ks.length ≤ limit →
      Listed S bs ks → (∀ b ∈ bs, ∀ first later, S b first →
        later = rest ∨ later.headD .endOfFile = .punctuation .comma →
          Gives p (first ++ later) depth (fun a => view a = view' b) later) →
      Gives (commaSeparatedUpTo p limit) (ks ++ rest) depth
        (fun as => as.map view = bs.map view') rest := by
    intro limit
    induction limit with
    | zero =>
      intro bs ks hlimit hspelled hitems
      match bs, hspelled with
      | [b], hlast =>
        refine (hitems b List.mem_cons_self ks rest hlast (Or.inl rfl)).bind fun a ha => .pure ?_
        rw [List.map_singleton, List.map_singleton, ha]
      | _ :: _ :: _, ⟨first, later, _, _, hks⟩ =>
        rw [hks, List.length_append, List.length_cons] at hlimit
        omega
    | succ limit ih =>
      intro bs ks hlimit hspelled hitems
      match bs, hspelled with
      | [b], hlast =>
        refine (hitems b List.mem_cons_self ks rest hlast (Or.inl rfl)).bind fun a ha => ?_
        refine (accept_other hrest).bind fun found hfound => ?_
        rw [hfound]
        exact .pure (by rw [List.map_singleton, List.map_singleton, ha])
      | b :: b' :: more, ⟨first, later, hfirst, hlater, hks⟩ =>
        rw [hks, List.append_assoc]
        rw [hks, List.length_append, List.length_cons] at hlimit
        refine (hitems b List.mem_cons_self first _ hfirst (Or.inr rfl)).bind fun a ha => ?_
        refine (accept (by simp)).bind fun found hfound => ?_
        rw [hfound]
        refine (ih (b' :: more) later (by omega) hlater fun b hb =>
          hitems b (List.mem_cons_of_mem _ hb)).bind fun as has => .pure ?_
        rw [List.map_cons, List.map_cons, ha, has]
  intro bs ks hspelled hitems c hc
  refine hall c.ahead.length bs ks ?_ hspelled hitems c hc
  rw [hc.length, List.length_append]
  omega

theorem length_le_dotted (parts : List String) (rest : List TokenKind) :
    parts.length ≤ (dottedKinds parts ++ rest).length := by
  induction parts with
  | nil => exact Nat.zero_le _
  | cons part parts ih =>
    rw [List.length_append] at ih
    rw [dottedKinds, List.flatMap_cons, ← dottedKinds]
    simp only [List.length_append, List.length_cons, List.length_nil]
    omega

/-- The parts of a name are read up to a token that does not go on with it. -/
theorem dotted (hrest : rest.headD .endOfFile ≠ .punctuation .dot) : ∀ (parts : List String)
    (limit : Nat), parts.length ≤ limit →
      Gives (qualifiedName.dotted limit) (dottedKinds parts ++ rest) depth (· = parts) rest
  | [], 0, _ => .pure rfl
  | [], limit + 1, _ => by
    refine (accept_other hrest).bind fun found hfound => ?_
    rw [hfound]
    exact .pure rfl
  | part :: parts, limit + 1, hlimit => by
    refine (accept (by simp)).bind fun found hfound => ?_
    rw [hfound]
    refine (identifier part).bind fun s hs =>
      (dotted hrest parts limit (Nat.le_of_succ_le_succ hlimit)).bind fun more hmore => .pure ?_
    rw [hs, hmore]

theorem qualifiedName (n : QualifiedName) (hrest : rest.headD .endOfFile ≠ .punctuation .dot) :
    Gives qualifiedName (n.kinds ++ rest) depth (·.node = n) rest := by
  refine (identifier n.first).bind fun head hhead => get_bind fun c hc => ?_
  have hlength : n.more.length ≤ c.ahead.length := hc.length ▸ length_le_dotted n.more rest
  refine (dotted hrest n.more _ hlength).bind fun more hmore =>
    (spanFrom _).bind fun _ _ => .pure ?_
  rw [hhead, hmore]

/-- Items, if there are any, are read up to a closing parenthesis. -/
theorem listedUntilParen {S : β → List TokenKind → Prop} {view : α → γ} {view' : β → γ}
    {bs : List β} {inner : List TokenKind} (hbs : bs = [] ∧ inner = [] ∨ Listed S bs inner)
    (hhead : ∀ b first later, S b first →
      (first ++ later).headD .endOfFile ≠ .punctuation .rightParen)
    (hitems : ∀ b ∈ bs, ∀ first later, S b first → Ends later →
      Gives p (first ++ later) depth (fun a => view a = view' b) later) :
    Gives (Production.untilParen p) (inner ++ .punctuation .rightParen :: rest) depth
        (fun as => as.map view = bs.map view') rest := by
  have hclose : ∀ as : List α, as.map view = bs.map view' →
      Gives (do Production.punctuation .rightParen; return as) (.punctuation .rightParen :: rest)
        depth (fun as => as.map view = bs.map view') rest :=
    fun as has => (punctuation _).bind fun _ _ => .pure has
  refine (isNext _).bind fun found hfound => ?_
  rcases hbs with ⟨rfl, rfl⟩ | hlisted
  · rw [hfound]
    exact hclose [] rfl
  · obtain ⟨b, first, later, hfirst, hinner⟩ := hlisted.head
    have hother := hhead b first (later ++ .punctuation .rightParen :: rest) hfirst
    rw [← List.append_assoc, ← hinner] at hother
    rw [hfound, decide_eq_false hother]
    refine (commaSeparated (by simp) hlisted fun b hb first later hfirst hlater =>
      hitems b hb first later hfirst ?_).bind hclose
    rcases hlater with rfl | hcomma
    · exact .rightParen
    · exact ⟨.comma, hcomma, by simp, by simp⟩

/-- Arguments are read up to the closing parenthesis. -/
theorem arguments {expression : Production Expr} {es : List Expr}
    (hitems : ∀ e ∈ es, expression.GivesBack e depth) :
    Gives (arguments expression) (Expr.kindsOfAll es ++ .punctuation .rightParen :: rest) depth
      (fun args => args.map Expr.bare = es.map Expr.bare) rest := by
  refine listedUntilParen (Expr.listed_kinds es) ?_ ?_
  · rintro e _ later rfl hparen
    have hbegins := e.begins_head later
    rw [hparen] at hbegins
    cases hbegins
  · rintro e he _ later rfl hlater
    exact hitems e he later hlater

end Gives

end Production

open Production

section Levels

variable {m depth : Nat} {rest : List TokenKind} {below : Option Level} {A : Expr → Prop}

theorem withRoom_eq (m : Nat) : ∃ below, Level.withRoom m = Level.over below := by
  cases m with
  | zero => exact ⟨none, rfl⟩
  | succ m => exact ⟨some (Level.withRoom m), rfl⟩

/-- An operand that does not begin with an operator. -/
theorem gives_operand {ks : List TokenKind} (hks : ∀ sign, ks.headD .endOfFile ≠ .operator sign)
    (h : Gives (primary below) ks depth A rest) : Gives (operandOver below) ks depth A rest := by
  refine Gives.get_bind fun c hc => ?_
  dsimp only
  split
  · next sign hkind => exact absurd (hc.kind_eq.symm.trans hkind) (hks sign)
  · exact h

theorem gives_constant (value : Constant) :
    Gives (primary below) (value.kind :: rest) depth
      (fun e => e.bare = .constant (Span.empty 0) value) rest := by
  refine Gives.get_bind fun c hc => ?_
  have hkind : c.peek.node = value.kind := hc.kind_eq
  dsimp only
  rw [hkind]
  match value with
  | .integer n => exact (Gives.advance (by simp [Constant.kind])).bind fun _ _ => .pure rfl
  | .text s => exact (Gives.advance (by simp [Constant.kind])).bind fun _ _ => .pure rfl
  | .boolean true => exact (Gives.advance (by simp [Constant.kind])).bind fun _ _ => .pure rfl
  | .boolean false => exact (Gives.advance (by simp [Constant.kind])).bind fun _ _ => .pure rfl

theorem gives_name (spelled : String) (hrest : Leaves rest) :
    Gives (primary below) (.identifier spelled :: rest) depth
      (fun e => e.bare = .name (Span.empty 0) spelled) rest := by
  refine Gives.get_bind fun c hc => ?_
  have hkind : c.peek.node = .identifier spelled := hc.kind_eq
  dsimp only
  rw [hkind]
  refine (Gives.qualifiedName ⟨spelled, []⟩ hrest.dot).bind fun n hn => ?_
  refine (Gives.accept_other hrest.leftParen).bind fun found hfound => ?_
  rw [hfound, hn]
  exact .pure rfl

theorem gives_paren {l : Level} {inner : Expr} (hdepth : depth < maxNesting)
    (h : Gives l.expression (inner.kinds ++ .punctuation .rightParen :: rest) (depth + 1)
      (·.bare = inner.bare) (.punctuation .rightParen :: rest)) :
    Gives (primary (some l)) (parenthesized inner.kinds ++ rest) depth
      (fun e => e.bare = .paren (Span.empty 0) inner.bare) rest := by
  refine Gives.get_bind fun c hc => ?_
  have hkind : c.peek.node = .punctuation .leftParen := hc.kind_eq
  dsimp only
  rw [hkind, parenthesized, List.cons_append, List.append_assoc]
  refine (Gives.advance (by simp)).bind fun _ _ => (Gives.inside hdepth h).bind fun e he =>
    (Gives.punctuation _).bind fun _ _ => (Gives.spanFrom _).bind fun _ _ => .pure ?_
  rw [Expr.bare, he]

theorem gives_call {l : Level} {callee : QualifiedName} {es : List Expr}
    (hdepth : depth < maxNesting)
    (h : ∀ e ∈ es, l.expression.GivesBack e (depth + 1)) :
    Gives (primary (some l)) (callee.kinds ++ parenthesized (Expr.kindsOfAll es) ++ rest) depth
      (fun e => e.bare = .call (Span.empty 0) ⟨callee, Span.empty 0⟩ (Expr.bareAll es)) rest := by
  refine Gives.get_bind fun c hc => ?_
  have hkind : c.peek.node = .identifier callee.first := hc.kind_eq
  dsimp only
  rw [hkind, parenthesized, List.append_assoc, List.cons_append, List.append_assoc]
  refine (Gives.qualifiedName callee (by simp)).bind fun n hn =>
    (Gives.accept (by simp)).bind fun found hfound => ?_
  rw [hfound]
  refine (Gives.inside hdepth (Gives.arguments h)).bind fun args hargs =>
    (Gives.spanFrom _).bind fun _ _ => .pure ?_
  rw [Expr.bare, hn, Expr.bareAll_eq, Expr.bareAll_eq, hargs]

theorem gives_unary {l : Level} {op : UnaryOp} {operand : Expr} (hdepth : depth < maxNesting)
    (h : Gives l.operand (operand.kinds ++ rest) (depth + 1) (·.bare = operand.bare) rest) :
    Gives (operandOver (some l)) (.operator op.sign :: (operand.kinds ++ rest)) depth
      (fun e => e.bare = .unary (Span.empty 0) op operand.bare) rest := by
  refine Gives.get_bind fun c hc => ?_
  have hkind : c.peek.node = .operator op.sign := hc.kind_eq
  have hop : UnaryOp.ofSign? op.sign = some op := by cases op <;> rfl
  dsimp only
  rw [hkind]
  dsimp only
  rw [hop]
  refine (Gives.advance (by simp)).bind fun _ _ => (Gives.inside hdepth h).bind fun e he =>
    .pure ?_
  rw [Expr.bare, he]

/-- Nothing that binds tightly enough comes next, so the chain ends. -/
theorem chain_unbound {least : Nat} (left : Expr) (hrest : Unbound least rest) :
    Gives ((Level.withRoom m).chain least left) rest depth (· = left) rest := by
  have hnone : Gives (nextOperator least) rest depth (· = none) rest := by
    refine Gives.get_bind fun c hc => ?_
    split
    · next sign hkind =>
      refine .pure (Option.filter_eq_none_iff.2 fun op hop => ?_)
      rw [hc.kind_eq, ← BinaryOp.sign_of_ofSign? hop] at hkind
      have hlow := hrest op hkind
      simpa using hlow
    · exact .pure rfl
  obtain ⟨below, hbelow⟩ := withRoom_eq m
  rw [hbelow]
  refine hnone.bind fun found hfound => ?_
  rw [hfound]
  exact .pure rfl

theorem nextOperator_found {least : Nat} {op : BinaryOp} (hleast : least ≤ op.precedence) :
    Gives (nextOperator least) (.operator op.sign :: rest) depth (· = some op)
      (.operator op.sign :: rest) := by
  refine Gives.get_bind fun c hc => ?_
  have hkind : c.kind = .operator op.sign := hc.kind_eq
  rw [hkind]
  refine .pure ?_
  rw [BinaryOp.ofSign?_sign]
  simp [hleast]

/-- The chain goes on with an operator from the level below. -/
theorem chain_found {least : Nat} {op : BinaryOp} {left right : Expr} {c d e : Cursor}
    (hop : nextOperator least c = (.ok (some op), d)) (hdepth : d.depth < maxNesting)
    (hright : (Level.withRoom m).binary (op.precedence + 1)
      { d with depth := d.depth + 1 }.advance = (.ok right, e)) :
    (Level.withRoom (m + 1)).chain least left c =
      (Level.withRoom m).chain least (.binary (left.span.merge right.span) op left right) e := by
  have hadvance : (modify (·.advance) : Production PUnit) { d with depth := d.depth + 1 } =
      (.ok ⟨⟩, { d with depth := d.depth + 1 }.advance) := rfl
  change chainOver (some (Level.withRoom m)) least left c = _
  rw [chainOver, bind_run, hop]
  dsimp only
  rw [bind_run, enter_run_ok hdepth]
  dsimp only
  rw [bind_run, hadvance]
  dsimp only
  rw [bind_run, hright]

end Levels

namespace Expr

/-- There is room at this depth for the levels of the expression, and nothing goes on with it. -/
structure Fits (e : Expr) (m depth : Nat) (rest : List TokenKind) : Prop where
  grouped : e.Grouped
  levels : e.levels ≤ m
  room : depth + m ≤ maxNesting
  leaves : Leaves rest

/-- Without an operator between two operands, the expression is read as an operand. -/
def ReadAlone (e : Expr) : Prop :=
  ∀ (m depth : Nat) (rest : List TokenKind), e.precedence? = none → e.Fits m depth rest →
    Gives (Level.withRoom m).operand (e.kinds ++ rest) depth (·.bare = e.bare) rest

/-- The expression is read as part of a chain, which goes on from it with as many levels less as
the expression has operators in the chain. -/
def ReadOn (e : Expr) : Prop :=
  ∀ (m depth least : Nat) (rest : List TokenKind) (c : Cursor), e.Binds least →
    (∀ n ∈ e.precedence?, Unbound (n + 1) rest) → e.Fits m depth rest →
    c.At (e.kinds ++ rest) depth → ∃ e' d, e'.bare = e.bare ∧ d.At rest (depth + e.chainLength) ∧
      (do (Level.withRoom m).chain least (← (Level.withRoom m).operand)) c =
        (Level.withRoom (m - e.chainLength)).chain least e' d

theorem ReadAlone.readOn {e : Expr} (hnone : e.precedence? = none) (h : e.ReadAlone) :
    e.ReadOn := by
  intro m depth least rest c _ _ hfits hc
  have hlength : e.chainLength = 0 := by
    cases e with
    | binary => cases hnone
    | _ => rfl
  obtain ⟨e', d, hrun, he', hd⟩ := h m depth rest hnone hfits c hc
  refine ⟨e', d, he', by rwa [hlength], ?_⟩
  rw [bind_run, hrun, hlength]
  rfl

theorem ReadOn.binary {e : Expr} {m depth least : Nat} {rest : List TokenKind} (h : e.ReadOn)
    (hbinds : e.Binds least) (hunbound : ∀ n ∈ e.precedence?, Unbound (n + 1) rest)
    (hrest : Unbound least rest) (hfits : e.Fits m depth rest) :
    Gives ((Level.withRoom m).binary least) (e.kinds ++ rest) depth (·.bare = e.bare) rest := by
  intro c hc
  obtain ⟨e', d, he', hd, hrun⟩ := h m depth least rest c hbinds hunbound hfits hc
  obtain ⟨found, f, hstop, hfound, hf⟩ := chain_unbound e' hrest d hd
  rw [hfound] at hstop
  refine ⟨e', _, keepingDepth_run_ok (hrun.trans hstop), he', ?_⟩
  rw [hc.depth]
  exact hf.at_depth depth

/-- The operator is found after its left operand, and its right operand is all that binds more
tightly. -/
theorem ReadOn.fold {span : Span} {op : BinaryOp} {left right : Expr} (hleft : left.ReadOn)
    (hright : right.ReadOn) : (Expr.binary span op left right).ReadOn := by
  intro m depth least rest c hbinds hunbound hfits hc
  obtain ⟨⟨hleftBinds, hrightBinds, hleftGrouped, hrightGrouped⟩, hlevels, hroom, hleaves⟩ := hfits
  rw [levels] at hlevels
  have hleast : least ≤ op.precedence := hbinds op.precedence rfl
  have hclosed : Unbound (op.precedence + 1) rest := hunbound op.precedence rfl
  let behind := .operator op.sign :: (right.kinds ++ rest)
  have hkinds : (Expr.binary span op left right).kinds ++ rest = left.kinds ++ behind := by
    simp [kinds, behind]
  have hleftFits : left.Fits m depth behind :=
    ⟨hleftGrouped, by omega, hroom, by simp [behind], by simp [behind]⟩
  -- The left operand ends at the operator, because it binds no more loosely than that.
  have hnext : ∀ n ∈ left.precedence?, Unbound (n + 1) behind := by
    intro n hn other hother
    obtain rfl : op = other := BinaryOp.sign_injective (TokenKind.operator.inj hother)
    have hlow := hleftBinds n hn
    omega
  obtain ⟨left', d, hleft', hd, hrun⟩ := hleft m depth least behind c
    (fun n hn => Nat.le_trans hleast (hleftBinds n hn)) hnext hleftFits (hkinds ▸ hc)
  -- The operator takes a level, and the operators of the left operand have taken one each.
  obtain ⟨k, hk⟩ : ∃ k, m - left.chainLength = k + 1 := ⟨m - left.chainLength - 1, by omega⟩
  obtain ⟨_, f, hop, rfl, hf⟩ := nextOperator_found hleast d hd
  have hdepth : f.depth < maxNesting := by
    rw [hf.depth]
    omega
  have hentered : Cursor.At { f with depth := f.depth + 1 } behind
      (depth + left.chainLength + 1) := hf.depth ▸ hf.at_depth (f.depth + 1)
  have hrightFits : right.Fits k (depth + left.chainLength + 1) rest :=
    ⟨hrightGrouped, by omega, by omega, hleaves⟩
  have hlater : ∀ n ∈ right.precedence?, Unbound (n + 1) rest := fun n hn =>
    hclosed.mono (Nat.le_succ_of_le (hrightBinds n hn))
  obtain ⟨right', e, hrightRun, hright', he⟩ := hright.binary hrightBinds hlater hclosed hrightFits
    _ (hentered.advance (by simp))
  refine ⟨.binary (left'.span.merge right'.span) op left' right', e, ?_, ?_, ?_⟩
  · rw [bare, bare, hleft', hright']
  · rwa [chainLength, ← Nat.add_assoc]
  · have hlast : m - (Expr.binary span op left right).chainLength = k := by
      rw [chainLength]
      omega
    rw [hrun, hk, hlast]
    exact chain_found hop hdepth hrightRun

theorem binds_one (e : Expr) : e.Binds 1 := by
  intro n hn
  cases e with
  | binary _ op =>
    obtain rfl := Option.some.inj hn
    cases op <;> decide
  | _ => cases hn

/-- What cannot go on with an expression ends it. -/
theorem ReadOn.expression {e : Expr} {m depth : Nat} {rest : List TokenKind} (h : e.ReadOn)
    (hgrouped : e.Grouped) (hlevels : e.levels ≤ m) (hroom : depth + m ≤ maxNesting)
    (hrest : Ends rest) :
    Gives (Level.withRoom m).expression (e.kinds ++ rest) depth (·.bare = e.bare) rest :=
  h.binary e.binds_one (fun n _ => hrest.unbound (n + 1)) (hrest.unbound 1)
    ⟨hgrouped, hlevels, hroom, hrest.leaves⟩

theorem levels_le_levelsOfAll {es : List Expr} : ∀ e ∈ es, e.levels ≤ levelsOfAll es := by
  induction es with
  | nil => exact fun e he => absurd he List.not_mem_nil
  | cons f rest ih =>
    rw [levelsOfAll]
    exact List.forall_mem_cons.2 ⟨Nat.le_max_left _ _, fun e he =>
      Nat.le_trans (ih e he) (Nat.le_max_right _ _)⟩

/-- Where a level is needed, there is one below. -/
theorem exists_room {m n : Nat} (h : 1 + n ≤ m) : ∃ k, m = k + 1 ∧ n ≤ k :=
  ⟨m - 1, by omega, by omega⟩

theorem readAlone_constant (span : Span) (value : Constant) : (constant span value).ReadAlone := by
  intro m depth rest _ _
  obtain ⟨below, hbelow⟩ := withRoom_eq m
  rw [hbelow]
  refine gives_operand (fun sign hsign => ?_) (gives_constant value)
  match value with
  | .integer _ | .text _ => cases hsign
  | .boolean true | .boolean false => cases hsign

theorem readAlone_name (span : Span) (spelled : String) : (name span spelled).ReadAlone := by
  intro m depth rest _ hfits
  obtain ⟨below, hbelow⟩ := withRoom_eq m
  rw [hbelow]
  exact gives_operand (by simp [kinds]) (gives_name spelled hfits.leaves)

theorem ReadAlone.unary {span : Span} {op : UnaryOp} {operand : Expr} (h : operand.ReadAlone) :
    (Expr.unary span op operand).ReadAlone := by
  intro m depth rest _ ⟨⟨hnone, hgrouped⟩, hlevels, hroom, hleaves⟩
  obtain ⟨k, rfl, hk⟩ := exists_room hlevels
  exact gives_unary (by omega) (h k _ rest hnone ⟨hgrouped, hk, by omega, hleaves⟩)

theorem ReadOn.paren {span : Span} {inner : Expr} (h : inner.ReadOn) :
    (Expr.paren span inner).ReadAlone := by
  intro m depth rest _ ⟨hgrouped, hlevels, hroom, _⟩
  obtain ⟨k, rfl, hk⟩ := exists_room hlevels
  exact gives_operand (by simp [kinds, parenthesized]) (gives_paren (by omega)
    (h.expression hgrouped hk (by omega) .rightParen))

theorem readAlone_call {span : Span} {callee : Spanned QualifiedName} {es : List Expr}
    (h : ∀ e ∈ es, e.ReadOn) : (call span callee es).ReadAlone := by
  intro m depth rest _ ⟨hgrouped, hlevels, hroom, _⟩
  obtain ⟨k, rfl, hk⟩ := exists_room hlevels
  refine gives_operand (by simp [kinds, QualifiedName.kinds]) (gives_call (by omega) ?_)
  intro e he later hlater
  have hlevel := levels_le_levelsOfAll e he
  exact (h e he).expression (allGrouped_iff.1 hgrouped e he) (by omega) (by omega) hlater

mutual

/-- Every expression is read as it is spelled, where there is room for it. -/
theorem reads : ∀ e : Expr, e.ReadAlone ∧ e.ReadOn
  | constant span value =>
    ⟨readAlone_constant span value, (readAlone_constant span value).readOn rfl⟩
  | name span spelled => ⟨readAlone_name span spelled, (readAlone_name span spelled).readOn rfl⟩
  | unary _ _ operand => ⟨operand.reads.1.unary, operand.reads.1.unary.readOn rfl⟩
  | binary _ _ left right =>
    ⟨fun _ _ _ hnone => (by cases hnone), left.reads.2.fold right.reads.2⟩
  | call _ _ arguments =>
    ⟨readAlone_call (readsAll arguments), (readAlone_call (readsAll arguments)).readOn rfl⟩
  | paren _ inner => ⟨inner.reads.2.paren, inner.reads.2.paren.readOn rfl⟩

theorem readsAll : ∀ es : List Expr, ∀ e ∈ es, e.ReadOn
  | [] => fun _ he => absurd he List.not_mem_nil
  | e :: rest => List.forall_mem_cons.2 ⟨e.reads.2, readsAll rest⟩

end

end Expr

theorem Level.givesBack {e : Expr} {m depth : Nat} (hgrouped : e.Grouped) (hlevels : e.levels ≤ m)
    (hroom : depth + m ≤ maxNesting) : (Level.withRoom m).expression.GivesBack e depth :=
  fun _ hrest => e.reads.2.expression hgrouped hlevels hroom hrest

end TestBench.Source
