import TestBench.Proofs.GrammarRuns
import TestBench.Proofs.Spellings

/-!
What productions read. A production that reports no fault has read a part of the
tokens ahead, up to where it stopped, and this part is related to what the
production gives. The relation is composed from those of the parts of the
production; it may also speak of what is left, because a chain of operators is
grouped by the operator that follows.
-/
namespace TestBench.Source

/-- The kinds of the tokens ahead. -/
def Cursor.kinds (c : Cursor) : List TokenKind := c.ahead.map (·.node)

namespace Cursor

theorem kind_eq (c : Cursor) : c.kind = c.kinds.headD .endOfFile := by
  unfold kind peek kinds
  cases c.ahead <;> rfl

theorem kinds_advance (c : Cursor) :
    c.advance.kinds = c.kinds ∧ c.kind = .endOfFile ∨
      c.kinds = c.kind :: c.advance.kinds ∧ c.kind ≠ .endOfFile := by
  unfold advance kind peek kinds
  cases hahead : c.ahead with
  | nil => exact Or.inl ⟨by rw [hahead], rfl⟩
  | cons t rest =>
    by_cases hend : t.node = .endOfFile
    · refine Or.inl ⟨?_, hend⟩
      simp only [hend, if_true, hahead]
    · refine Or.inr ⟨?_, hend⟩
      simp only [hend, if_false, List.map_cons, List.headD_cons]

theorem faults_advance (c : Cursor) : c.advance.faults = c.faults := by
  unfold advance
  split
  · rfl
  · split <;> rfl

theorem faults_recover (c : Cursor) (size : Nat) (fault : Spanned SyntaxFault) :
    (c.recover size fault).faults = c.faults ++ [fault] := by
  simp only [recover]
  split
  · exact faults_advance _
  · rfl

end Cursor

namespace Production

variable {α β σ : Type}

/-- Unless it reports a fault, the production reads tokens that are related to what it gives and to
what is left. -/
def Spells (p : Production α) (S : α → List TokenKind → List TokenKind → Prop) : Prop :=
  ∀ c r d, p c = (r, d) → ∃ reported, d.faults = c.faults ++ reported ∧
    ∀ a, r = .ok a → reported = [] →
      ∃ read, c.kinds = read ++ d.kinds ∧ .endOfFile ∉ read ∧ S a read d.kinds

namespace Spells

variable {p : Production α} {S T : α → List TokenKind → List TokenKind → Prop}
  {U : β → List TokenKind → List TokenKind → Prop}

theorem mono (h : Spells p S) (hST : ∀ a ks rest, S a ks rest → T a ks rest) : Spells p T := by
  intro c r d hrun
  obtain ⟨reported, hfaults, hread⟩ := h c r d hrun
  refine ⟨reported, hfaults, fun a ha hnone => ?_⟩
  obtain ⟨read, hkinds, hend, hS⟩ := hread a ha hnone
  exact ⟨read, hkinds, hend, hST a read _ hS⟩

theorem pure {a : α} (h : ∀ rest, S a [] rest) : Spells (pure a) S := by
  intro c r d hrun
  obtain ⟨rfl, rfl⟩ := Prod.mk.inj hrun
  refine ⟨[], (List.append_nil _).symm, fun b hb _ => ⟨[], rfl, List.not_mem_nil, ?_⟩⟩
  exact Except.ok.inj hb ▸ h _

/-- What is given without reading. -/
theorem given (a : α) : Spells (Pure.pure a) fun found ks _ => found = a ∧ ks = [] :=
  pure fun _ => ⟨rfl, rfl⟩

/-- A production that fails where it stands. -/
theorem failing (h : ∀ c, ∃ fault, p c = (.error fault, c)) : Spells p S := by
  intro c r d hrun
  obtain ⟨fault, hfault⟩ := h c
  obtain ⟨rfl, rfl⟩ := Prod.mk.inj (hfault.symm.trans hrun)
  exact ⟨[], (List.append_nil _).symm, fun a ha => by cases ha⟩

theorem fail (fault : SyntaxFault) (span : Span) : Spells (fail fault span : Production α) S :=
  failing fun _ => ⟨_, rfl⟩

theorem unexpected (what : Expectation) : Spells (unexpected what : Production α) S :=
  failing fun _ => ⟨_, rfl⟩

/-- What is read first stands before what is read next, which is what is left at first. -/
theorem bind {next : α → Production β} (h : Spells p S)
    (hnext : ∀ a, Spells (next a) fun b later rest =>
      ∀ first, S a first (later ++ rest) → U b (first ++ later) rest) :
    Spells (p >>= next) U := by
  intro c r d hrun
  rw [bind_run] at hrun
  cases hp : p c with
  | mk found between =>
    obtain ⟨reported, hfaults, hfirst⟩ := h c found between hp
    rw [hp] at hrun
    cases found with
    | error e =>
      obtain ⟨rfl, rfl⟩ := Prod.mk.inj hrun
      exact ⟨reported, hfaults, fun a ha => by cases ha⟩
    | ok a =>
      obtain ⟨more, hmore, hlater⟩ := hnext a between r d hrun
      refine ⟨reported ++ more, by rw [hmore, hfaults, List.append_assoc], fun b hb hnone => ?_⟩
      obtain ⟨rfl, rfl⟩ := List.append_eq_nil_iff.1 hnone
      obtain ⟨first, hkinds, hend, hS⟩ := hfirst a rfl rfl
      obtain ⟨later, hrest, hlaterEnd, hU⟩ := hlater b hb rfl
      refine ⟨first ++ later, ?_, ?_, ?_⟩
      · rw [hkinds, hrest, List.append_assoc]
      · rw [List.mem_append, not_or]
        exact ⟨hend, hlaterEnd⟩
      · exact hU first (hrest ▸ hS)

theorem map {f : α → β} (h : Spells p S) (hf : ∀ a ks rest, S a ks rest → U (f a) ks rest) :
    Spells (f <$> p) U := by
  refine h.bind fun a => .pure fun rest first hfirst => ?_
  rw [List.append_nil]
  exact hf a first rest hfirst

theorem get_bind {next : Cursor → Production β}
    (h : ∀ c, Spells (next c) fun b ks rest => c.kinds = ks ++ rest → U b ks rest) :
    Spells (get >>= next) U := by
  intro c r d hrun
  obtain ⟨reported, hfaults, hread⟩ := h c c r d hrun
  refine ⟨reported, hfaults, fun b hb hnone => ?_⟩
  obtain ⟨read, hkinds, hend, hU⟩ := hread b hb hnone
  exact ⟨read, hkinds, hend, hU hkinds⟩

/-- What is read is spelled in the same way wherever it stands. -/
theorem unseen {c : Cursor} (h : Spells p S) :
    Spells p fun a ks rest => c.kinds = ks ++ rest → S a ks rest :=
  h.mono fun _ _ _ hS _ => hS

/-- The next token is read, unless it is the end of the file. -/
theorem advance : Spells (modify (·.advance) : Production PUnit) fun _ ks rest =>
    ∀ kind, kind ≠ .endOfFile → (ks ++ rest).headD .endOfFile = kind → ks = [kind] := by
  intro c r d hrun
  obtain ⟨rfl, rfl⟩ := Prod.mk.inj hrun
  refine ⟨[], ?_, fun a _ _ => ?_⟩
  · rw [List.append_nil]
    exact c.faults_advance
  rcases c.kinds_advance with ⟨hkinds, hkind⟩ | ⟨hkinds, hkind⟩
  · refine ⟨[], hkinds.symm, List.not_mem_nil, fun kind hend hnext => ?_⟩
    change c.advance.kinds.headD .endOfFile = kind at hnext
    rw [hkinds, ← c.kind_eq, hkind] at hnext
    exact absurd hnext.symm hend
  · refine ⟨[c.kind], hkinds, by simpa using Ne.symm hkind, fun kind _ hnext => ?_⟩
    rw [← hnext]
    rfl

/-- The next token is read where it has been seen. -/
theorem advance_bind {next : PUnit → Production β} {c : Cursor} {kind : TokenKind}
    (hkind : c.kind = kind) (hend : kind ≠ .endOfFile)
    (h : Spells (next ⟨⟩) fun b ks rest => U b (kind :: ks) rest) :
    Spells (modify (·.advance) >>= next) fun b ks rest => c.kinds = ks ++ rest → U b ks rest := by
  refine advance.bind fun _ => h.mono fun b ks rest hU first hfirst hkinds => ?_
  rw [hfirst kind hend (by rw [← List.append_assoc, ← hkinds, ← c.kind_eq, hkind])]
  exact hU

theorem isNext (kind : TokenKind) : Spells (isNext kind) fun found ks rest =>
    ks = [] ∧ (found = true → rest.headD .endOfFile = kind) := by
  refine get_bind fun c => .pure fun rest hkinds => ⟨rfl, fun hfound => ?_⟩
  rw [← of_decide_eq_true hfound, c.kind_eq, hkinds, List.nil_append]

theorem accept {kind : TokenKind} (hend : kind ≠ .endOfFile) :
    Spells (accept kind) fun found ks _ => ks = if found then [kind] else [] := by
  refine (isNext kind).bind fun found => ?_
  cases found with
  | false =>
    refine .pure fun rest first hfirst => ?_
    rw [hfirst.1]
    rfl
  | true =>
    refine advance.bind fun _ => .pure fun rest read hread first ⟨hfirst, hnext⟩ => ?_
    rw [List.append_nil] at hnext ⊢
    rw [hfirst, hread kind hend (hnext rfl)]
    rfl

theorem expect (what : Expectation) {kind : TokenKind} (hend : kind ≠ .endOfFile) :
    Spells (expect what kind) fun _ ks _ => ks = [kind] := by
  refine (accept hend).bind fun found => ?_
  cases found with
  | false => exact unexpected what
  | true => exact .pure fun rest first hfirst => by rw [hfirst]; rfl

theorem keyword (word : Keyword) :
    Spells (keyword word) fun _ ks _ => ks = [.keyword word] := expect _ (by simp)

theorem punctuation (sign : Punctuation) :
    Spells (punctuation sign) fun _ ks _ => ks = [.punctuation sign] := expect _ (by simp)

theorem identifier : Spells identifier fun s ks _ => ks = [.identifier s.node] := by
  refine get_bind fun c => ?_
  simp only
  split
  · next name hname => exact advance_bind hname (by simp) (.pure fun _ => rfl)
  · exact unexpected _

theorem ite {q : Production α} {condition : Prop} [Decidable condition] (h : Spells p S)
    (hq : Spells q S) : Spells (if condition then p else q) S := by
  split
  · exact h
  · exact hq

/-- A production that runs another at some depth and restores the depth. -/
theorem atDepth {q : Production α} (h : Spells p S)
    (hq : ∀ c, (∃ fault, q c = (.error fault, c)) ∨ ∃ before after,
      q c = ((p { c with depth := before }).1,
        { (p { c with depth := before }).2 with depth := after })) : Spells q S := by
  intro c r d hrun
  rcases hq c with ⟨fault, hfault⟩ | ⟨before, after, hinner⟩
  · obtain ⟨rfl, rfl⟩ := Prod.mk.inj (hfault.symm.trans hrun)
    exact ⟨[], (List.append_nil _).symm, fun a ha => by cases ha⟩
  · obtain ⟨rfl, rfl⟩ := Prod.mk.inj (hinner.symm.trans hrun)
    exact h { c with depth := before } _ (p { c with depth := before }).2 rfl

theorem inside (h : Spells p S) : Spells (inside p) S := by
  refine h.atDepth fun c => ?_
  unfold Production.inside
  split
  · exact Or.inr ⟨c.depth + 1, _, rfl⟩
  · exact Or.inl ⟨_, rfl⟩

theorem keepingDepth (h : Spells p S) : Spells (keepingDepth p) S :=
  h.atDepth fun c => Or.inr ⟨c.depth, c.depth, rfl⟩

theorem enter : Spells enter fun _ ks _ => ks = [] := by
  refine (pure (a := ()) fun _ => rfl).atDepth fun c => ?_
  unfold Production.enter
  split
  · exact Or.inr ⟨c.depth, c.depth + 1, rfl⟩
  · exact Or.inl ⟨_, rfl⟩

theorem spanFrom (first : Span) : Spells (spanFrom first) fun _ ks _ => ks = [] :=
  get_bind fun _ => .pure fun _ _ => rfl

section Lists

variable {R : α → List TokenKind → Prop}

theorem commaSeparated (h : Spells p fun a ks _ => R a ks) :
    Spells (commaSeparated p) fun as ks _ => Listed R as ks := by
  have hall : ∀ limit, Spells (commaSeparatedUpTo p limit) fun as ks _ => Listed R as ks := by
    intro limit
    induction limit with
    | zero =>
      refine h.bind fun a => .pure fun rest first hfirst => ?_
      rwa [List.append_nil]
    | succ limit ih =>
      refine h.bind fun a => (accept (by simp)).bind fun found => ?_
      cases found with
      | false =>
        refine .pure fun rest comma hcomma first hfirst => ?_
        subst hcomma
        exact (List.append_nil first).symm ▸ hfirst
      | true =>
        refine ih.bind fun as => .pure fun rest later hlater comma hcomma first hfirst => ?_
        rw [hcomma, List.append_nil]
        cases as with
        | nil => exact hlater.elim
        | cons b more => exact ⟨first, later, hfirst, hlater, rfl⟩
  exact fun c => hall c.ahead.length c

/-- Items, if there are any, up to a closing parenthesis. -/
theorem listedUntilParen (h : Spells p fun a ks _ => R a ks) :
    Spells (Production.untilParen p) fun as ks _ => ∃ inner,
      ks = inner ++ [.punctuation .rightParen] ∧
        (as = [] ∧ inner = [] ∨ Listed R as inner) := by
  have hclose : ∀ as : List α, Spells (do Production.punctuation .rightParen; return as)
      fun found ks _ => found = as ∧ ks = [.punctuation .rightParen] := by
    refine fun as => (punctuation _).bind fun _ => .pure ?_
    rintro rest _ rfl
    exact ⟨rfl, rfl⟩
  refine (isNext _).bind fun found => ite ?_ ?_
  · refine (given []).bind fun as => (hclose as).mono ?_
    rintro _ _ rest ⟨rfl, rfl⟩ _ ⟨rfl, rfl⟩ _ ⟨rfl, -⟩
    exact ⟨[], rfl, Or.inl ⟨rfl, rfl⟩⟩
  · refine (commaSeparated h).bind fun as => (hclose as).mono ?_
    rintro _ _ rest ⟨rfl, rfl⟩ inner hinner _ ⟨rfl, -⟩
    exact ⟨inner, rfl, Or.inr hinner⟩

/-- Unless an item fails, what is collected changes with all that is read. At the limit, as many
tokens as it allows have been read. -/
theorem recoveringUpTo {stop : Cursor → Bool} {item : σ → Production σ}
    {I : σ → List TokenKind → Prop}
    (hitem : ∀ s, Spells (item s) fun s' ks _ =>
      ks ≠ [] ∧ ∀ before, I s before → I s' (before ++ ks))
    (limit : Nat) {s s' : σ} {c d : Cursor}
    (hrun : recoveringUpTo stop item limit s c = (s', d)) :
    ∃ reported, d.faults = c.faults ++ reported ∧ (reported = [] → ∃ read,
      c.kinds = read ++ d.kinds ∧ .endOfFile ∉ read ∧
        (∀ before, I s before → I s' (before ++ read)) ∧
          (stop d = true ∨ limit ≤ read.length)) := by
  induction limit generalizing s c with
  | zero =>
    obtain ⟨rfl, rfl⟩ := Prod.mk.inj hrun
    refine ⟨[], (List.append_nil _).symm, fun _ => ⟨[], rfl, List.not_mem_nil, ?_, ?_⟩⟩
    · simp
    · exact Or.inr (Nat.le_refl 0)
  | succ limit ih =>
    rw [Production.recoveringUpTo] at hrun
    split at hrun
    · next hstop =>
      obtain ⟨rfl, rfl⟩ := Prod.mk.inj hrun
      refine ⟨[], (List.append_nil _).symm, fun _ => ⟨[], rfl, List.not_mem_nil, ?_, ?_⟩⟩
      · simp
      · exact Or.inl hstop
    cases hfirst : item s c with
    | mk found between =>
      obtain ⟨reported, hfaults, hread⟩ := hitem s c found between hfirst
      rw [hfirst] at hrun
      cases found with
      | error fault =>
        -- Recovery reports the fault before anything else is read.
        obtain ⟨more, hmore, -⟩ := ih hrun
        refine ⟨reported ++ fault :: more, ?_, fun hnone => ?_⟩
        · rw [hmore, Cursor.faults_recover, hfaults]
          simp
        · simp at hnone
      | ok next =>
        obtain ⟨more, hmore, hlater⟩ := ih hrun
        refine ⟨reported ++ more, by rw [hmore, hfaults, List.append_assoc], fun hnone => ?_⟩
        obtain ⟨hnone, hmoreNone⟩ := List.append_eq_nil_iff.1 hnone
        obtain ⟨first, hkinds, hend, hne, hfirstI⟩ := hread next rfl hnone
        obtain ⟨later, hrest, hlaterEnd, hlaterI, hdone⟩ := hlater hmoreNone
        have hlength : 0 < first.length := List.length_pos_iff.2 hne
        refine ⟨first ++ later, ?_, ?_, ?_, hdone.imp id fun hlimit => ?_⟩
        · rw [hkinds, hrest, List.append_assoc]
        · rw [List.mem_append, not_or]
          exact ⟨hend, hlaterEnd⟩
        · intro before hbefore
          rw [← List.append_assoc]
          exact hlaterI _ (hfirstI before hbefore)
        · rw [List.length_append]
          omega

/-- Items that are collected in front of those read before. -/
theorem recovering {stop : Cursor → Bool} (h : Spells p fun a ks _ => ks ≠ [] ∧ R a ks) :
    Spells (recovering stop (fun read => return (← p) :: read) [])
      fun read ks _ => Sequence R read.reverse ks := by
  have hitem : ∀ read : List α, Spells (do return (← p) :: read) fun found ks _ =>
      ks ≠ [] ∧ ∀ before, Sequence R read.reverse before →
        Sequence R found.reverse (before ++ ks) := by
    refine fun read => h.bind fun a => .pure fun rest ks hks => ?_
    rw [List.append_nil, List.reverse_cons]
    exact ⟨hks.1, fun before hbefore => hbefore.concat hks.2⟩
  intro c r d hrun
  obtain ⟨rfl, rfl⟩ := Prod.mk.inj hrun
  obtain ⟨reported, hfaults, hread⟩ := recoveringUpTo hitem c.ahead.length rfl
  refine ⟨reported, hfaults, fun a ha hnone => ?_⟩
  obtain ⟨read, hkinds, hend, hI, -⟩ := hread hnone
  exact ⟨read, hkinds, hend, Except.ok.inj ha ▸ hI [] rfl⟩

end Lists

theorem dotted (limit : Nat) :
    Spells (qualifiedName.dotted limit) fun parts ks _ => ks = dottedKinds parts := by
  induction limit with
  | zero => exact pure fun _ => rfl
  | succ limit ih =>
    refine (accept (by simp)).bind fun found => ?_
    cases found with
    | false => exact pure fun rest _ hdot => hdot ▸ rfl
    | true =>
      refine identifier.bind fun part => ih.bind fun parts => .pure ?_
      rintro rest _ rfl _ rfl _ rfl
      simp [dottedKinds]

theorem qualifiedName : Spells qualifiedName fun n ks _ => ks = n.node.kinds := by
  refine identifier.bind fun head => get_bind fun c => (dotted _).bind fun parts =>
    (spanFrom _).bind fun span => .pure ?_
  rintro rest _ rfl _ rfl - _ rfl
  simp [QualifiedName.kinds]

section

variable {expression : Production Expr}
  (hexpression : Spells expression fun e ks _ => ks = e.kinds ∧ e.Grouped)

include hexpression

theorem arguments : Spells (arguments expression) fun args ks _ =>
    ks = Expr.kindsOfAll args ++ [.punctuation .rightParen] ∧ Expr.AllGrouped args := by
  refine (listedUntilParen hexpression).mono ?_
  rintro args _ rest ⟨inner, rfl, ⟨rfl, rfl⟩ | hlisted⟩
  · exact ⟨rfl, trivial⟩
  · rw [Expr.kinds_of_listed (hlisted.imp fun _ _ h => h.1)]
    exact ⟨rfl, Expr.allGrouped_iff.2 (hlisted.forall fun _ _ h => h.2)⟩

theorem assigned (what : Expectation) : Spells (assigned expression what) fun value ks _ =>
    ks = .operator .assign :: (value.kinds ++ [.punctuation .semicolon]) ∧ value.Grouped := by
  refine (expect _ (by simp)).bind fun _ => hexpression.bind fun value =>
    (punctuation _).bind fun _ => .pure ?_
  rintro rest _ rfl _ ⟨rfl, hvalue⟩ _ rfl
  exact ⟨by simp, hvalue⟩

end

end Spells

end Production

theorem BinaryOp.sign_of_ofSign? {sign : Operator} {op : BinaryOp}
    (h : BinaryOp.ofSign? sign = some op) : op.sign = sign := by
  simpa using List.find?_some h

theorem BinaryOp.ofSign?_sign (op : BinaryOp) : BinaryOp.ofSign? op.sign = some op := by
  cases op <;> rfl

theorem BinaryOp.sign_injective {op other : BinaryOp} (h : op.sign = other.sign) : op = other := by
  have hfound := BinaryOp.ofSign?_sign op
  rw [h, BinaryOp.ofSign?_sign] at hfound
  exact (Option.some.inj hfound).symm

theorem UnaryOp.sign_of_ofSign? {sign : Operator} {op : UnaryOp}
    (h : UnaryOp.ofSign? sign = some op) : op.sign = sign := by
  simpa using List.find?_some h

/-- No operator comes next that binds at least this tightly. -/
def Unbound (least : Nat) (rest : List TokenKind) : Prop :=
  ∀ op : BinaryOp, rest.headD .endOfFile = .operator op.sign → op.precedence < least

open Production (Spells)

/-- What the productions of a level read is spelled and grouped as it should be. A chain goes on
from a left operand that binds no less tightly. -/
structure Level.Spells (l : Level) : Prop where
  operand : Production.Spells l.operand fun e ks _ =>
    ks = e.kinds ∧ e.Grouped ∧ e.precedence? = none
  chain : ∀ least left, Production.Spells (l.chain least left) fun e ks rest =>
    left.Grouped → left.Binds least → (∀ n ∈ left.precedence?, Unbound (n + 1) (ks ++ rest)) →
      e.kinds = left.kinds ++ ks ∧ e.Grouped ∧ e.Binds least ∧ Unbound least rest
  statement : Production.Spells l.statement fun s ks _ => s.Spelled ks ∧ s.Grouped
  conditional : Production.Spells l.conditional fun s ks _ =>
    s.Spelled ks ∧ s.Grouped ∧ s.isConditional = true

section Levels

variable {l : Level} {below : Option Level}

theorem Expr.binds_of_none {e : Expr} {least : Nat} (h : e.precedence? = none) :
    e.Binds least := by
  intro n hn
  rw [h] at hn
  cases hn

theorem Level.Spells.binary (h : l.Spells) (least : Nat) :
    Production.Spells (l.binary least) fun e ks rest =>
      ks = e.kinds ∧ e.Grouped ∧ e.Binds least ∧ Unbound least rest := by
  refine .keepingDepth (h.operand.bind fun left => (h.chain least left).mono ?_)
  rintro e ks rest hchain _ ⟨rfl, hleft, hnone⟩
  obtain ⟨hkinds, hwhole⟩ := hchain hleft (Expr.binds_of_none hnone) (by simp [hnone])
  exact ⟨hkinds.symm, hwhole⟩

theorem Level.Spells.expression (h : l.Spells) :
    Production.Spells l.expression fun e ks _ => ks = e.kinds ∧ e.Grouped :=
  (h.binary 1).mono fun _ _ _ he => ⟨he.1, he.2.1⟩

variable (hbelow : ∀ l ∈ below, l.Spells)

include hbelow

theorem spells_further {α : Type} {p : Level → Production α}
    {S : α → List TokenKind → List TokenKind → Prop}
    (h : ∀ l : Level, l.Spells → Production.Spells (p l) S) :
    Production.Spells (further below p) S := by
  cases below with
  | none => exact .failing fun _ => ⟨_, rfl⟩
  | some l => exact .inside (h l (hbelow l rfl))

theorem spells_primary : Production.Spells (primary below) fun e ks _ =>
    ks = e.kinds ∧ e.Grouped ∧ e.precedence? = none := by
  refine Spells.get_bind fun c => ?_
  dsimp only
  split
  · next n hkind =>
    exact .advance_bind hkind (by simp) (.pure fun _ => ⟨rfl, trivial, rfl⟩)
  · next s hkind =>
    exact .advance_bind hkind (by simp) (.pure fun _ => ⟨rfl, trivial, rfl⟩)
  · next hkind =>
    exact .advance_bind hkind (by simp) (.pure fun _ => ⟨rfl, trivial, rfl⟩)
  · next hkind =>
    exact .advance_bind hkind (by simp) (.pure fun _ => ⟨rfl, trivial, rfl⟩)
  · next hkind =>
    refine .advance_bind hkind (by simp) ((spells_further hbelow fun l hl => hl.expression).bind
      fun inner => (Spells.punctuation _).bind fun _ => (Spells.spanFrom _).bind fun _ => .pure ?_)
    rintro rest _ rfl _ rfl _ ⟨rfl, hinner⟩
    exact ⟨by simp [Expr.kinds, parenthesized], hinner, rfl⟩
  · next hkind =>
    refine .unseen (Spells.qualifiedName.bind fun name =>
      (Spells.accept (by simp)).bind fun found => ?_)
    cases found with
    | true =>
      refine (spells_further hbelow fun l hl => Spells.arguments hl.expression).bind fun args =>
        (Spells.spanFrom _).bind fun _ => .pure ?_
      rintro rest _ rfl _ ⟨rfl, hargs⟩ _ rfl _ rfl
      exact ⟨by simp [Expr.kinds, parenthesized], hargs, rfl⟩
    | false =>
      simp only [Bool.false_eq_true, if_false]
      split
      · next hsimple =>
        refine .pure ?_
        rintro rest _ rfl _ rfl
        have hmore : name.node.more = [] := List.isEmpty_iff.1 hsimple
        exact ⟨by simp [Expr.kinds, QualifiedName.kinds, dottedKinds, hmore], trivial, rfl⟩
      · exact .fail _ _
  · exact .unexpected _

theorem spells_operand : Production.Spells (operandOver below) fun e ks _ =>
    ks = e.kinds ∧ e.Grouped ∧ e.precedence? = none := by
  refine Spells.get_bind fun c => ?_
  dsimp only
  split
  · next sign hkind =>
    split
    · next op hop =>
      refine .advance_bind hkind (by simp) ((spells_further hbelow fun l hl => hl.operand).bind
        fun inner => .pure ?_)
      rintro rest _ ⟨rfl, hinner, hnone⟩
      rw [← UnaryOp.sign_of_ofSign? hop]
      exact ⟨by simp [Expr.kinds], ⟨hnone, hinner⟩, rfl⟩
    · exact (spells_primary hbelow).unseen
  · exact (spells_primary hbelow).unseen

omit hbelow in
theorem spells_nextOperator (least : Nat) : Production.Spells (nextOperator least)
    fun found ks rest => ks = [] ∧ (found = none → Unbound least rest) ∧
      ∀ op ∈ found, least ≤ op.precedence ∧ rest.headD .endOfFile = .operator op.sign := by
  refine Spells.get_bind fun c => ?_
  split
  · next sign hkind =>
    refine .pure fun rest hrest => ⟨rfl, fun hnone op hop => ?_, fun op hop => ?_⟩
    · rw [List.nil_append] at hrest
      rw [c.kind_eq, hrest, hop] at hkind
      obtain rfl := TokenKind.operator.inj hkind
      rw [Option.filter_eq_none_iff] at hnone
      have hlow := hnone op (BinaryOp.ofSign?_sign op)
      simpa using hlow
    · rw [List.nil_append] at hrest
      obtain ⟨hop, hleast⟩ := Option.mem_filter_iff.1 hop
      rw [BinaryOp.sign_of_ofSign? hop, ← hrest, ← c.kind_eq]
      exact ⟨of_decide_eq_true hleast, hkind⟩
  · next hkind =>
    refine .pure fun rest hrest => ⟨rfl, fun _ op hop => ?_, fun op hop => by cases hop⟩
    rw [List.nil_append] at hrest
    rw [← hrest, ← c.kind_eq] at hop
    exact absurd hop (hkind _)

theorem spells_chain (least : Nat) (left : Expr) :
    Production.Spells (chainOver below least left) fun e ks rest =>
    left.Grouped → left.Binds least → (∀ n ∈ left.precedence?, Unbound (n + 1) (ks ++ rest)) →
      e.kinds = left.kinds ++ ks ∧ e.Grouped ∧ e.Binds least ∧ Unbound least rest := by
  refine (spells_nextOperator least).bind fun found => ?_
  cases found with
  | none =>
    refine .pure ?_
    rintro rest _ ⟨rfl, hnone, -⟩ hleft hbinds -
    exact ⟨(List.append_nil _).symm, hleft, hbinds, hnone rfl⟩
  | some op =>
    cases below with
    | none => exact Spells.get_bind fun c => .fail _ _
    | some l =>
      have hl := hbelow l rfl
      refine Spells.enter.bind fun _ => Spells.advance.bind fun _ =>
        (hl.binary _).bind fun right => (hl.chain least _).mono ?_
      rintro e ks rest hchain _ ⟨rfl, hright, hrightBinds, hunbound⟩ sign hsign _ rfl _
        ⟨rfl, -, hop⟩ hleft hbinds hclosed
      obtain ⟨hleast, hnext⟩ := hop op rfl
      obtain rfl := hsign (.operator op.sign) (by simp) (by simpa using hnext)
      -- If the left operand applied an operator of lower precedence, its right operand would have
      -- taken this one.
      have hleftBinds : left.Binds op.precedence := by
        intro n hn
        have hlow := hclosed n hn op (by simp)
        omega
      have hnode : (Expr.binary (left.span.merge right.span) op left right).Grouped :=
        ⟨hleftBinds, hrightBinds, hleft, hright⟩
      obtain ⟨hkinds, hwhole⟩ := hchain hnode (by rintro n ⟨⟩; exact hleast)
        (by rintro n ⟨⟩; exact hunbound)
      refine ⟨?_, hwhole⟩
      rw [hkinds, Expr.kinds]
      simp

theorem spells_block : Production.Spells (block below) fun body ks _ =>
    Stmt.AllGrouped body ∧ ∃ inner, Stmt.AllSpelled body inner ∧ ks = braced inner := by
  refine spells_further hbelow fun l hl => (Spells.punctuation _).bind fun _ => ?_
  refine (Spells.recovering (R := fun s ks => s.Spelled ks ∧ s.Grouped) (hl.statement.mono
    fun s ks _ hs => ⟨hs.1.opens.ne_nil, hs⟩)).bind fun read => (Spells.punctuation _).bind fun _ =>
      .pure ?_
  rintro rest _ rfl inner hbody _ rfl
  refine ⟨Stmt.allGrouped_iff.2 (hbody.forall fun _ _ hs => hs.2), inner,
    Stmt.allSpelled_iff.2 (hbody.imp fun _ _ hs => hs.1), by simp [braced]⟩

section

variable {expression : Production Expr}
  (hexpression : Production.Spells expression fun e ks _ => ks = e.kinds ∧ e.Grouped)

include hexpression

theorem spells_conditional : Production.Spells (conditionalOver below expression)
    fun s ks _ => s.Spelled ks ∧ s.Grouped ∧ s.isConditional = true := by
  refine Spells.get_bind fun c => .unseen ?_
  refine (Spells.keyword _).bind fun _ => hexpression.bind fun condition =>
    (spells_block hbelow).bind fun body => (Spells.accept (by simp)).bind fun found => ?_
  cases found with
  | false =>
    refine (Spells.spanFrom _).bind fun span => .pure ?_
    rintro rest _ rfl _ rfl _ ⟨hbody, inner, hinner, rfl⟩ _ ⟨rfl, hcondition⟩ _ rfl
    exact ⟨⟨inner, hinner, by simp⟩, ⟨hcondition, hbody⟩, rfl⟩
  | true =>
    have hmade : ∀ otherwise : List Stmt, Production.Spells (do
        return Stmt.ifElse (← Production.spanFrom c.peek.span) condition body otherwise)
        fun s ks _ => ks = [] ∧ ∃ span, s = Stmt.ifElse span condition body otherwise := by
      refine fun otherwise => (Spells.spanFrom _).bind fun span => .pure ?_
      rintro rest _ rfl
      exact ⟨rfl, span, rfl⟩
    refine (Spells.isNext _).bind fun found => .ite ?_ ?_
    · refine (spells_further hbelow fun l hl => hl.conditional).bind fun nested => ?_
      refine (Spells.given [nested]).bind fun otherwise => (hmade otherwise).mono ?_
      rintro _ _ rest ⟨rfl, span, rfl⟩ _ ⟨rfl, rfl⟩ branch ⟨hspelled, hgrouped, hcond⟩ _ ⟨rfl, -⟩
        _ rfl _ ⟨hbody, inner, hinner, rfl⟩ _ ⟨rfl, hcondition⟩ _ rfl
      refine ⟨⟨inner, branch, branch, hinner, ⟨branch, [], hspelled, rfl, (List.append_nil _).symm⟩,
        Or.inr ⟨rfl, nested, rfl, hcond⟩, by simp⟩, ⟨hcondition, hbody, hgrouped, trivial⟩, rfl⟩
    · refine (spells_block hbelow).bind fun otherwise => (hmade otherwise).mono ?_
      rintro _ _ rest ⟨rfl, span, rfl⟩ _ ⟨hotherwise, other, hother, rfl⟩ _ ⟨rfl, -⟩
        _ rfl _ ⟨hbody, inner, hinner, rfl⟩ _ ⟨rfl, hcondition⟩ _ rfl
      exact ⟨⟨inner, other, braced other, hinner, hother, Or.inl rfl, by simp⟩,
        ⟨hcondition, hbody, hotherwise⟩, rfl⟩

theorem spells_statement : Production.Spells (statementOver below expression)
    fun s ks _ => s.Spelled ks ∧ s.Grouped := by
  refine Spells.get_bind fun c => ?_
  dsimp only
  split
  · next hkind =>
    refine .advance_bind hkind (by simp) (Spells.identifier.bind fun name =>
      (Spells.assigned hexpression _).bind fun value => (Spells.spanFrom _).bind fun _ => .pure ?_)
    rintro rest _ rfl _ ⟨rfl, hvalue⟩ _ rfl
    exact ⟨by simp [Stmt.Spelled], hvalue⟩
  · next hkind =>
    have hmade : ∀ value : Option Expr, Production.Spells (do
        Production.punctuation .semicolon
        return Stmt.return (← Production.spanFrom c.peek.span) value)
        fun s ks _ => ks = [.punctuation .semicolon] ∧ ∃ span, s = Stmt.return span value := by
      refine fun value => (Spells.punctuation _).bind fun _ => (Spells.spanFrom _).bind fun span =>
        .pure ?_
      rintro rest _ rfl _ rfl
      exact ⟨rfl, span, rfl⟩
    refine .advance_bind hkind (by simp) ((Spells.isNext _).bind fun found => .ite ?_ ?_)
    · refine (Spells.given none).bind fun value => (hmade value).mono ?_
      rintro _ _ rest ⟨rfl, span, rfl⟩ _ ⟨rfl, rfl⟩ _ ⟨rfl, -⟩
      exact ⟨rfl, by simp [Stmt.Grouped]⟩
    · refine (hexpression.map (f := some)
        (U := fun value ks _ => ∃ e : Expr, value = some e ∧ ks = e.kinds ∧ e.Grouped)
        fun e ks _ he => ⟨e, rfl, he⟩).bind fun value => (hmade value).mono ?_
      rintro _ _ rest ⟨rfl, span, rfl⟩ _ ⟨e, rfl, rfl, he⟩ _ ⟨rfl, -⟩
      exact ⟨by simp [Stmt.Spelled], by simpa [Stmt.Grouped] using he⟩
  · exact (spells_conditional hbelow hexpression).mono fun s ks rest h _ => ⟨h.1, h.2.1⟩
  · next hkind =>
    refine .advance_bind hkind (by simp) (hexpression.bind fun condition =>
      (spells_block hbelow).bind fun body => (Spells.spanFrom _).bind fun _ => .pure ?_)
    rintro rest _ rfl _ ⟨hbody, inner, hinner, rfl⟩ _ ⟨rfl, hcondition⟩
    exact ⟨⟨inner, hinner, by simp⟩, hcondition, hbody⟩
  · split
    · next name hkind _ =>
      refine .advance_bind hkind (by simp) ((Spells.assigned hexpression _).bind fun value =>
        (Spells.spanFrom _).bind fun _ => .pure ?_)
      rintro rest _ rfl _ ⟨rfl, hvalue⟩
      exact ⟨by simp [Stmt.Spelled], hvalue⟩
    · refine .unseen (hexpression.bind fun value => (Spells.punctuation _).bind fun _ =>
        (Spells.spanFrom _).bind fun _ => .pure ?_)
      rintro rest _ rfl _ rfl _ ⟨rfl, hvalue⟩
      exact ⟨by simp [Stmt.Spelled], hvalue⟩

end

theorem spells_over : (Level.over below).Spells := by
  have hexpression : Production.Spells (Production.keepingDepth do
      chainOver below 1 (← operandOver below)) fun e ks _ => ks = e.kinds ∧ e.Grouped := by
    refine .keepingDepth ((spells_operand hbelow).bind fun left =>
      (spells_chain hbelow 1 left).mono ?_)
    rintro e ks rest hchain _ ⟨rfl, hleft, hnone⟩
    obtain ⟨hkinds, hwhole⟩ := hchain hleft (Expr.binds_of_none hnone) (by simp [hnone])
    exact ⟨hkinds.symm, hwhole.1⟩
  exact ⟨spells_operand hbelow, spells_chain hbelow, spells_statement hbelow hexpression,
    spells_conditional hbelow hexpression⟩

end Levels

theorem Level.withRoom_spells (n : Nat) : (Level.withRoom n).Spells := by
  induction n with
  | zero => exact spells_over fun l hl => by cases hl
  | succ n ih => exact spells_over fun l hl => Option.some.inj hl ▸ ih

end TestBench.Source
