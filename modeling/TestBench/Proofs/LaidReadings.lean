import TestBench.Proofs.ProgramTrees
import TestBench.Proofs.SpelledProductions

/-!
Which tokens productions read, and how what they give is laid out on them. A
production that reports no fault has read the tokens from where the cursor stood
up to where it stands then. Spans are put together from that of a first token or
part and that of the token read last; because the tokens are in order, such a span
covers all that was read.
-/
namespace TestBench.Source

open Token (InOrder)
open SyntaxTree (AllLaidOut tokens inParens listed)

namespace Cursor

/-- The span of the last of these tokens, or the one before if there are none. -/
def lastSpan (before : Span) (ts : List Token) : Span := (ts.getLast?.map (·.span)).getD before

/-- From the first cursor to the second, these tokens were read. -/
structure Passes (c : Cursor) (ts : List Token) (d : Cursor) : Prop where
  ahead : c.ahead = ts ++ d.ahead
  last : d.last = lastSpan c.last ts
  goesOn : ∀ t ∈ ts, t.node ≠ .endOfFile

namespace Passes

variable {c d e : Cursor} {ts us : List Token} {t : Token} {s : Span}

theorem refl (c : Cursor) : c.Passes [] c := ⟨rfl, rfl, by simp⟩

theorem trans (h : c.Passes ts d) (h' : d.Passes us e) : c.Passes (ts ++ us) e := by
  refine ⟨?_, ?_, ?_⟩
  · rw [h.ahead, h'.ahead, List.append_assoc]
  · rw [h'.last, h.last, lastSpan, lastSpan, lastSpan, List.getLast?_append]
    cases us.getLast? <;> simp
  · intro t ht
    rcases List.mem_append.1 ht with ht | ht
    · exact h.goesOn t ht
    · exact h'.goesOn t ht

theorem peek (h : c.Passes (t :: ts) d) : c.peek = t := by
  rw [Cursor.peek, h.ahead]
  rfl

theorem kind_eq (h : c.Passes [] d) : d.kind = c.kind := by
  have hahead : c.ahead = d.ahead := h.ahead
  rw [c.kind_eq, d.kind_eq, Cursor.kinds, Cursor.kinds, hahead]

/-- A span that covers the first tokens, together with that of the token read last, covers all. -/
theorem covers (h : c.Passes (ts ++ us) d) (hin : InOrder (ts ++ us)) (hs : s.Covers ts) :
    (s.merge d.last).Covers (ts ++ us) := by
  obtain ⟨first, hfirst, hstart⟩ := hs.head
  obtain ⟨last, hlast⟩ : ∃ last, (ts ++ us).getLast? = some last := by
    rw [← Option.ne_none_iff_exists', ne_eq, List.getLast?_eq_none_iff, List.append_eq_nil_iff]
    exact fun hnone => hs.ne_nil hnone.1
  have hspan : d.last = last.span := by
    rw [h.last, lastSpan, hlast]
    rfl
  rw [hspan]
  have hhead : (ts ++ us).head? = some first := by rw [List.head?_append, hfirst, Option.some_or]
  have hle := hin.head_le hhead last (List.mem_of_getLast? hlast)
  exact hs.merge hin hlast (hstart ▸ hle) rfl

/-- A node from the token that comes first to the one read last. -/
theorem node {parts : List SyntaxTree} (h : c.Passes ts d) (hin : InOrder ts) (hparts : parts ≠ [])
    (hlaid : AllLaidOut parts ts) :
    (SyntaxTree.node (c.peek.span.merge d.last) parts).LaidOut ts := by
  cases ts with
  | nil => exact absurd rfl (hlaid.ne_nil hparts)
  | cons t more =>
    rw [h.peek]
    exact ⟨Passes.covers h hin (.token t), hlaid⟩

end Passes

/-- The next token is read, unless it is the end of the file. -/
theorem passes_advance (c : Cursor) : c.kind = .endOfFile ∧ c.advance = c ∨
    ∃ t, t.node = c.kind ∧ c.Passes [t] c.advance := by
  unfold advance kind peek
  cases hahead : c.ahead with
  | nil => exact Or.inl ⟨rfl, rfl⟩
  | cons t rest =>
    by_cases hend : t.node = .endOfFile
    · exact Or.inl ⟨hend, if_pos hend⟩
    · simp only [hend, if_false]
      exact Or.inr ⟨t, rfl, hahead, rfl, by simpa using hend⟩

end Cursor

namespace Production

variable {α β σ : Type}

/-- Unless it reports a fault, the production reads tokens from this cursor on and gives what it
should on them, if they are in order. -/
def LaysAt (c : Cursor) (p : Production α) (S : α → List Token → Prop) : Prop :=
  ∀ r d, p c = (r, d) → ∃ reported, d.faults = c.faults ++ reported ∧
    ∀ a, r = .ok a → reported = [] → ∃ ts, c.Passes ts d ∧ (InOrder c.ahead → S a ts)

namespace LaysAt

variable {c : Cursor} {p : Production α} {S T : α → List Token → Prop} {U : β → List Token → Prop}

theorem mono (h : LaysAt c p S) (hST : ∀ a ts, S a ts → T a ts) : LaysAt c p T := by
  intro r d hrun
  obtain ⟨reported, hfaults, hread⟩ := h r d hrun
  refine ⟨reported, hfaults, fun a ha hnone => ?_⟩
  obtain ⟨ts, hpasses, hS⟩ := hread a ha hnone
  exact ⟨ts, hpasses, fun hin => hST a ts (hS hin)⟩

/-- The tokens that are read are in order. -/
theorem ordered (h : LaysAt c p fun a ts => InOrder ts → S a ts) : LaysAt c p S := by
  intro r d hrun
  obtain ⟨reported, hfaults, hread⟩ := h r d hrun
  refine ⟨reported, hfaults, fun a ha hnone => ?_⟩
  obtain ⟨ts, hpasses, hS⟩ := hread a ha hnone
  refine ⟨ts, hpasses, fun hin => hS hin ?_⟩
  rw [hpasses.ahead] at hin
  exact hin.left

theorem pure {a : α} (h : S a []) : LaysAt c (pure a) S := by
  intro r d hrun
  obtain ⟨rfl, rfl⟩ := Prod.mk.inj hrun
  refine ⟨[], (List.append_nil _).symm, fun b hb _ => ⟨[], .refl c, fun _ => ?_⟩⟩
  exact Except.ok.inj hb ▸ h

/-- What is given without reading. -/
theorem given (a : α) : LaysAt c (Pure.pure a) fun found ts => found = a ∧ ts = [] :=
  pure ⟨rfl, rfl⟩

/-- A production that fails where it stands. -/
theorem failing {fault : Spanned SyntaxFault} (h : p c = (.error fault, c)) : LaysAt c p S := by
  intro r d hrun
  obtain ⟨rfl, rfl⟩ := Prod.mk.inj (h.symm.trans hrun)
  exact ⟨[], (List.append_nil _).symm, fun a ha => by cases ha⟩

theorem fail (fault : SyntaxFault) (span : Span) :
    LaysAt c (fail fault span : Production α) S := failing rfl

theorem unexpected (what : Expectation) : LaysAt c (unexpected what : Production α) S := failing rfl

/-- What is read next begins where the cursor stands after what is read first. -/
theorem bind {next : α → Production β} (h : LaysAt c p S)
    (hnext : ∀ a d, LaysAt d (next a) fun b later =>
      ∀ first, c.Passes first d → S a first → U b (first ++ later)) :
    LaysAt c (p >>= next) U := by
  intro r e hrun
  rw [bind_run] at hrun
  cases hp : p c with
  | mk found d =>
    obtain ⟨reported, hfaults, hfirst⟩ := h found d hp
    rw [hp] at hrun
    cases found with
    | error fault =>
      obtain ⟨rfl, rfl⟩ := Prod.mk.inj hrun
      exact ⟨reported, hfaults, fun a ha => by cases ha⟩
    | ok a =>
      obtain ⟨more, hmore, hlater⟩ := hnext a d r e hrun
      refine ⟨reported ++ more, by rw [hmore, hfaults, List.append_assoc], fun b hb hnone => ?_⟩
      obtain ⟨rfl, rfl⟩ := List.append_eq_nil_iff.1 hnone
      obtain ⟨first, hpasses, hS⟩ := hfirst a rfl rfl
      obtain ⟨later, hpassesLater, hU⟩ := hlater b hb rfl
      refine ⟨first ++ later, hpasses.trans hpassesLater, fun hin => ?_⟩
      have hinLater : InOrder d.ahead := by
        rw [hpasses.ahead] at hin
        exact hin.right
      exact hU hinLater first hpasses (hS hin)

theorem map {f : α → β} (h : LaysAt c p S) (hf : ∀ a ts, S a ts → U (f a) ts) :
    LaysAt c (f <$> p) U := by
  refine h.bind fun a d => .pure ?_
  intro first _ hfirst
  rw [List.append_nil]
  exact hf a first hfirst

theorem get_bind {next : Cursor → Production β} (h : LaysAt c (next c) U) :
    LaysAt c (get >>= next) U := h

theorem ite {q : Production α} {condition : Prop} [Decidable condition] (h : LaysAt c p S)
    (hq : LaysAt c q S) : LaysAt c (if condition then p else q) S := by
  split
  · exact h
  · exact hq

/-- The next token is read where it is not the end of the file. -/
theorem advance : LaysAt c (modify (·.advance) : Production PUnit) fun _ ts =>
    c.kind ≠ .endOfFile → (SyntaxTree.token c.kind).LaidOut ts := by
  intro r d hrun
  obtain ⟨rfl, rfl⟩ := Prod.mk.inj hrun
  refine ⟨[], ?_, fun a _ _ => ?_⟩
  · rw [List.append_nil]
    exact c.faults_advance
  change ∃ ts, c.Passes ts c.advance ∧ _
  rcases c.passes_advance with ⟨hkind, hstay⟩ | ⟨t, hkind, hpasses⟩
  · rw [hstay]
    exact ⟨[], .refl c, fun _ hgoes => absurd hkind hgoes⟩
  · exact ⟨[t], hpasses, fun _ _ => ⟨t, rfl, hkind⟩⟩

theorem advance_of {kind : TokenKind} (hkind : c.kind = kind) (hend : kind ≠ .endOfFile) :
    LaysAt c (modify (·.advance) : Production PUnit) fun _ ts =>
      (SyntaxTree.token kind).LaidOut ts := by
  subst hkind
  exact advance.mono fun _ _ h => h hend

theorem isNext (kind : TokenKind) : LaysAt c (isNext kind) fun found ts =>
    ts = [] ∧ (found = true → c.kind = kind) :=
  get_bind (pure ⟨rfl, of_decide_eq_true⟩)

theorem accept {kind : TokenKind} (hend : kind ≠ .endOfFile) :
    LaysAt c (accept kind) fun found ts =>
      (found = true → (SyntaxTree.token kind).LaidOut ts) ∧ (found = false → ts = []) := by
  refine (isNext kind).bind fun found d => ?_
  cases found with
  | false =>
    refine .pure ?_
    intro first _ hfirst
    rw [hfirst.1]
    exact ⟨nofun, fun _ => rfl⟩
  | true =>
    refine advance.bind fun _ _ => .pure ?_
    intro ts _ hts first hpasses hfirst
    obtain ⟨rfl, hnext⟩ := hfirst
    rw [hpasses.kind_eq, hnext rfl] at hts
    rw [List.nil_append, List.append_nil]
    exact ⟨fun _ => hts hend, nofun⟩

theorem expect (what : Expectation) {kind : TokenKind} (hend : kind ≠ .endOfFile) :
    LaysAt c (expect what kind) fun _ ts => (SyntaxTree.token kind).LaidOut ts := by
  refine (accept hend).bind fun found d => ?_
  cases found with
  | false => exact unexpected what
  | true =>
    refine .pure ?_
    intro first _ hfirst
    rw [List.append_nil]
    exact hfirst.1 rfl

theorem keyword (word : Keyword) :
    LaysAt c (keyword word) fun _ ts => (SyntaxTree.token (.keyword word)).LaidOut ts :=
  expect _ (by simp)

theorem punctuation (sign : Punctuation) :
    LaysAt c (punctuation sign) fun _ ts => (SyntaxTree.token (.punctuation sign)).LaidOut ts :=
  expect _ (by simp)

theorem identifier : LaysAt c identifier fun s ts => (wordTree s).LaidOut ts := by
  refine get_bind ?_
  dsimp only
  split
  · next name hname =>
    refine (advance_of hname (by simp)).bind fun _ d => .pure ?_
    intro first hpasses hfirst
    obtain ⟨t, rfl, hkind⟩ := hfirst
    rw [hpasses.peek]
    exact ⟨.token t, SyntaxTree.allLaidOut_singleton.2 ⟨t, rfl, hkind⟩⟩
  · exact unexpected _

/-- A production that runs another at some depth and restores the depth. -/
theorem atDepth {q : Production α} (h : ∀ depth, LaysAt { c with depth } p S)
    (hq : (∃ fault, q c = (.error fault, c)) ∨ ∃ before after,
      q c = ((p { c with depth := before }).1,
        { (p { c with depth := before }).2 with depth := after })) : LaysAt c q S := by
  rcases hq with ⟨fault, hfault⟩ | ⟨before, after, hinner⟩
  · exact failing hfault
  · intro r d hrun
    obtain ⟨rfl, rfl⟩ := Prod.mk.inj (hinner.symm.trans hrun)
    obtain ⟨reported, hfaults, hread⟩ := h before _ (p { c with depth := before }).2 rfl
    refine ⟨reported, hfaults, fun a ha hnone => ?_⟩
    obtain ⟨ts, hpasses, hS⟩ := hread a ha hnone
    exact ⟨ts, ⟨hpasses.ahead, hpasses.last, hpasses.goesOn⟩, hS⟩

theorem inside (h : ∀ d, LaysAt d p S) : LaysAt c (inside p) S := by
  refine atDepth (fun _ => h _) ?_
  unfold Production.inside
  split
  · exact Or.inr ⟨c.depth + 1, _, rfl⟩
  · exact Or.inl ⟨_, rfl⟩

theorem keepingDepth (h : ∀ d, LaysAt d p S) : LaysAt c (keepingDepth p) S :=
  atDepth (fun _ => h _) (Or.inr ⟨c.depth, c.depth, rfl⟩)

theorem enter : LaysAt c enter fun _ ts => ts = [] := by
  refine atDepth (fun _ => pure (a := ()) rfl) ?_
  unfold Production.enter
  split
  · exact Or.inr ⟨c.depth, c.depth + 1, rfl⟩
  · exact Or.inl ⟨_, rfl⟩

theorem spanFrom (first : Span) : LaysAt c (spanFrom first) fun span ts =>
    ts = [] ∧ span = first.merge c.last := get_bind (pure ⟨rfl, rfl⟩)

/-- What is made with the span up to the token read last. -/
theorem spanned (f : Span → α) (first : Span) :
    LaysAt c (do return f (← Production.spanFrom first)) fun a ts =>
      ts = [] ∧ a = f (first.merge c.last) := by
  refine (spanFrom first).bind fun span d => .pure ?_
  intro ts _ hspan
  rw [hspan.1, hspan.2]
  exact ⟨rfl, rfl⟩

section Lists

variable {R : α → SyntaxTree → Prop}

theorem commaSeparated (h : ∀ d, LaysAt d p fun a ts => ∃ tree, R a tree ∧ tree.LaidOut ts) :
    LaysAt c (commaSeparated p) fun as ts => as ≠ [] ∧
      ∃ trees, List.Forall₂ R as trees ∧ AllLaidOut (listed trees) ts := by
  have hall : ∀ limit d, LaysAt d (commaSeparatedUpTo p limit) fun as ts => as ≠ [] ∧
      ∃ trees, List.Forall₂ R as trees ∧ AllLaidOut (listed trees) ts := by
    intro limit
    induction limit with
    | zero =>
      intro d
      refine (h d).bind fun a m => .pure ?_
      intro first _ hfirst
      obtain ⟨tree, ha, hlaid⟩ := hfirst
      exact ⟨List.cons_ne_nil _ _, [tree], .cons ha .nil, .cons hlaid .nil⟩
    | succ limit ih =>
      intro d
      refine (h d).bind fun a m => (accept (by simp)).bind fun found m' => ?_
      cases found with
      | false =>
        refine .pure ?_
        intro comma _ hcomma first _ hfirst
        obtain ⟨tree, ha, hlaid⟩ := hfirst
        obtain rfl := hcomma.2 rfl
        exact ⟨List.cons_ne_nil _ _, [tree], .cons ha .nil, .cons hlaid .nil⟩
      | true =>
        refine (ih m').bind fun as m'' => .pure ?_
        intro later _ hlater comma _ hcomma first _ hfirst
        obtain ⟨tree, ha, hlaid⟩ := hfirst
        obtain ⟨hne, trees, has, hall⟩ := hlater
        refine ⟨List.cons_ne_nil _ _, tree :: trees, .cons ha has, ?_⟩
        cases has with
        | nil => exact absurd rfl hne
        | cons hb hmore =>
          rw [List.append_nil, listed, List.intersperse_cons_cons]
          exact .cons hlaid (.cons (hcomma.1 rfl) hall)
  exact hall c.ahead.length c

/-- Items, if there are any, up to a closing parenthesis. -/
theorem listedUntilParen (h : ∀ d, LaysAt d p fun a ts => ∃ tree, R a tree ∧ tree.LaidOut ts) :
    LaysAt c (Production.untilParen p) fun as ts => ∃ trees, List.Forall₂ R as trees ∧
        AllLaidOut (listed trees ++ [.token (.punctuation .rightParen)]) ts := by
  have hclose : ∀ (as : List α) d, LaysAt d (do Production.punctuation .rightParen; return as)
      fun found ts => found = as ∧ AllLaidOut [.token (.punctuation .rightParen)] ts := by
    intro as d
    refine (punctuation _).bind fun _ _ => .pure ?_
    intro ts _ hts
    exact ⟨rfl, .cons hts .nil⟩
  refine (isNext _).bind fun found d => ite ?_ ?_
  · refine (given []).bind fun as m => (hclose as m).mono ?_
    intro found ts hts none _ hnone first _ hfirst
    obtain ⟨rfl, hts⟩ := hts
    obtain ⟨rfl, rfl⟩ := hnone
    obtain ⟨rfl, -⟩ := hfirst
    exact ⟨[], .nil, hts⟩
  · refine (commaSeparated h).bind fun as m => (hclose as m).mono ?_
    intro found ts hts inner _ hinner first _ hfirst
    obtain ⟨rfl, hts⟩ := hts
    obtain ⟨-, trees, has, hlaid⟩ := hinner
    obtain ⟨rfl, -⟩ := hfirst
    exact ⟨trees, has, hlaid.append hts⟩

/-- Unless an item fails, what is collected changes with all that is read. At the limit, as many
tokens as it allows have been read. -/
theorem recoveringUpTo {stop : Cursor → Bool} {item : σ → Production σ}
    {I : σ → List Token → Prop}
    (hitem : ∀ s d, LaysAt d (item s) fun s' ts =>
      ts ≠ [] ∧ ∀ before, I s before → I s' (before ++ ts))
    (limit : Nat) {s s' : σ} {c d : Cursor}
    (hrun : recoveringUpTo stop item limit s c = (s', d)) :
    ∃ reported, d.faults = c.faults ++ reported ∧ (reported = [] → ∃ ts, c.Passes ts d ∧
      (InOrder c.ahead → (∀ before, I s before → I s' (before ++ ts)) ∧
        (stop d = true ∨ limit ≤ ts.length))) := by
  induction limit generalizing s c with
  | zero =>
    obtain ⟨rfl, rfl⟩ := Prod.mk.inj hrun
    refine ⟨[], (List.append_nil _).symm, fun _ => ⟨[], .refl c, fun _ => ⟨?_, ?_⟩⟩⟩
    · simp
    · exact Or.inr (Nat.le_refl 0)
  | succ limit ih =>
    rw [Production.recoveringUpTo] at hrun
    split at hrun
    · next hstop =>
      obtain ⟨rfl, rfl⟩ := Prod.mk.inj hrun
      refine ⟨[], (List.append_nil _).symm, fun _ => ⟨[], .refl c, fun _ => ⟨?_, ?_⟩⟩⟩
      · simp
      · exact Or.inl hstop
    cases hfirst : item s c with
    | mk found between =>
      obtain ⟨reported, hfaults, hread⟩ := hitem s c found between hfirst
      rw [hfirst] at hrun
      cases found with
      | error fault =>
        -- Recovery reports the fault before anything else is read.
        obtain ⟨more, hmore, -⟩ := ih hrun
        refine ⟨reported ++ fault :: more, ?_, fun hnone => ?_⟩
        · rw [hmore, Cursor.faults_recover, hfaults]
          simp
        · simp at hnone
      | ok next =>
        obtain ⟨more, hmore, hlater⟩ := ih hrun
        refine ⟨reported ++ more, by rw [hmore, hfaults, List.append_assoc], fun hnone => ?_⟩
        obtain ⟨hnone, hmoreNone⟩ := List.append_eq_nil_iff.1 hnone
        obtain ⟨first, hpasses, hfirstI⟩ := hread next rfl hnone
        obtain ⟨later, hpassesLater, hlaterI⟩ := hlater hmoreNone
        refine ⟨first ++ later, hpasses.trans hpassesLater, fun hin => ?_⟩
        obtain ⟨hne, hI⟩ := hfirstI hin
        rw [hpasses.ahead] at hin
        obtain ⟨hI', hdone⟩ := hlaterI hin.right
        have hlength : 0 < first.length := List.length_pos_iff.2 hne
        refine ⟨?_, hdone.imp id fun hlimit => ?_⟩
        · intro before hbefore
          rw [← List.append_assoc]
          exact hI' _ (hI before hbefore)
        · rw [List.length_append]
          omega

/-- Items that are collected in front of those read before. -/
theorem recovering {stop : Cursor → Bool}
    (h : ∀ d, LaysAt d p fun a ts => ∃ tree, R a tree ∧ tree.LaidOut ts) :
    LaysAt c (recovering stop (fun read => return (← p) :: read) []) fun read ts =>
      ∃ trees, List.Forall₂ R read.reverse trees ∧ AllLaidOut trees ts := by
  have hitem : ∀ (read : List α) d, LaysAt d (do return (← p) :: read) fun found ts => ts ≠ [] ∧
      ∀ before, (∃ trees, List.Forall₂ R read.reverse trees ∧ AllLaidOut trees before) →
        ∃ trees, List.Forall₂ R found.reverse trees ∧ AllLaidOut trees (before ++ ts) := by
    intro read d
    refine (h d).bind fun a m => .pure ?_
    intro ts _ hts
    obtain ⟨tree, ha, hlaid⟩ := hts
    rw [List.append_nil, List.reverse_cons]
    refine ⟨hlaid.ne_nil, fun before hbefore => ?_⟩
    obtain ⟨trees, hread, hall⟩ := hbefore
    exact ⟨trees ++ [tree], List.rel_append hread (.cons ha .nil),
      hall.append (SyntaxTree.allLaidOut_singleton.2 hlaid)⟩
  intro r d hrun
  obtain ⟨rfl, rfl⟩ := Prod.mk.inj hrun
  obtain ⟨reported, hfaults, hread⟩ := recoveringUpTo hitem c.ahead.length rfl
  refine ⟨reported, hfaults, fun a ha hnone => ?_⟩
  obtain ⟨ts, hpasses, hI⟩ := hread hnone
  refine ⟨ts, hpasses, fun hin => ?_⟩
  obtain rfl := Except.ok.inj ha
  exact (hI hin).1 [] ⟨[], .nil, .nil⟩

end Lists

theorem dotted (limit : Nat) : ∀ c, LaysAt c (qualifiedName.dotted limit) fun parts ts =>
    AllLaidOut (tokens (dottedKinds parts)) ts := by
  induction limit with
  | zero => exact fun c => pure .nil
  | succ limit ih =>
    intro c
    refine (accept (by simp)).bind fun found d => ?_
    cases found with
    | false =>
      refine .pure ?_
      intro first _ hfirst
      rw [List.append_nil, hfirst.2 rfl]
      exact .nil
    | true =>
      refine identifier.bind fun part m => (ih m).bind fun parts _ => .pure ?_
      intro later _ hlater name _ hname dot _ hdot
      rw [List.append_nil]
      exact .cons (hdot.1 rfl) (.append hname.2 hlater)

theorem qualifiedName : LaysAt c qualifiedName fun n ts => (calleeTree n).LaidOut ts := by
  refine .ordered (identifier.bind fun head d => get_bind ((dotted _ d).bind fun parts m =>
    (spanned (Spanned.mk (⟨head.node, parts⟩ : QualifiedName)) head.span).mono ?_))
  intro n none hmade more hmore hparts first hfirst hhead hin
  obtain ⟨rfl, rfl⟩ := hmade
  rw [List.append_nil] at hin ⊢
  exact ⟨(hfirst.trans hmore).covers hin hhead.1, .append hhead.2 hparts⟩

theorem map_of_forall₂ {f : α → β} {as : List α} {bs : List β}
    (h : List.Forall₂ (fun a b => f a = b) as bs) : as.map f = bs := by
  have hmap := List.forall₂_map_left_iff.2 h
  rwa [List.forall₂_eq_eq_eq] at hmap

theorem parameters : LaysAt c parameters fun ps ts =>
    AllLaidOut (inParens (listed (ps.map wordTree))) ts := by
  have hidentifier : ∀ d, LaysAt d Production.identifier fun s ts =>
      ∃ tree, wordTree s = tree ∧ tree.LaidOut ts :=
    fun d => identifier.mono fun s ts hs => ⟨wordTree s, rfl, hs⟩
  refine (punctuation _).bind fun _ d => (listedUntilParen hidentifier).mono ?_
  intro ps ts hps first _ hfirst
  obtain ⟨trees, htrees, hlaid⟩ := hps
  rw [map_of_forall₂ htrees]
  exact .cons hfirst hlaid

section

variable {expression : Production Expr}
  (hexpression : ∀ d, LaysAt d expression fun e ts => e.tree.LaidOut ts)

include hexpression

theorem arguments : LaysAt c (arguments expression) fun args ts =>
    AllLaidOut (listed (Expr.treesOfAll args) ++ [.token (.punctuation .rightParen)]) ts := by
  have hitem : ∀ d, LaysAt d expression fun e ts => ∃ tree, e.tree = tree ∧ tree.LaidOut ts :=
    fun d => (hexpression d).mono fun e ts he => ⟨e.tree, rfl, he⟩
  refine (listedUntilParen hitem).mono ?_
  intro args ts hargs
  obtain ⟨trees, htrees, hlaid⟩ := hargs
  rwa [Expr.treesOfAll_eq, map_of_forall₂ htrees]

theorem assigned (what : Expectation) : LaysAt c (assigned expression what) fun value ts =>
    AllLaidOut [.token (.operator .assign), value.tree, .token (.punctuation .semicolon)] ts := by
  refine (expect _ (by simp)).bind fun _ d => (hexpression d).bind fun value _ =>
    (punctuation _).bind fun _ _ => .pure ?_
  intro semicolon _ hsemicolon inner _ hinner sign _ hsign
  exact .cons hsign (.cons hinner (.cons hsemicolon .nil))

end

end LaysAt

end Production

end TestBench.Source
