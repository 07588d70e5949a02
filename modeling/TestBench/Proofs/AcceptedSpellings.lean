import TestBench.Proofs.NestingBound
import TestBench.Proofs.SpelledProductions

/-!
What accepted programs were read from. Recovery reports a fault whenever it
skips a token, so where none is reported every token belongs to a declaration,
in the order of the declarations; and what stands without parentheses is grouped
as the operators bind.
-/
namespace TestBench.Source

/-- The expressions of the member are grouped as they are spelled. -/
def Member.Grouped : Member → Prop
  | .field f => f.value.Grouped
  | .method m => (∀ a ∈ m.attributes, ∀ e ∈ a.arguments, e.Grouped) ∧ Stmt.AllGrouped m.body

def ClassDecl.Grouped (c : ClassDecl) : Prop :=
  (∀ e ∈ c.expressions, e.Grouped) ∧ ∀ m ∈ c.methods, Stmt.AllGrouped m.body

/-- The members of a class that were read, each sort taken for itself. -/
theorem ClassDecl.grouped_of_members {span : Span} {attributes : List Attribute}
    {name : Spanned String} {members : List Member}
    (hattributes : ∀ a ∈ attributes, ∀ e ∈ a.arguments, e.Grouped)
    (hmembers : ∀ m ∈ members, m.Grouped) :
    ClassDecl.Grouped ⟨span, attributes, name, members.filterMap Member.field?,
      members.filterMap Member.method?⟩ := by
  have hfields : ∀ f ∈ members.filterMap Member.field?, f.value.Grouped := by
    intro f hf
    obtain ⟨m, hm, hfield⟩ := List.mem_filterMap.1 hf
    cases m with
    | field decl => exact Option.some.inj hfield ▸ hmembers _ hm
    | method decl => cases hfield
  have hmethods : ∀ m ∈ members.filterMap Member.method?, (Member.method m).Grouped := by
    intro m hm
    obtain ⟨found, hfound, hmethod⟩ := List.mem_filterMap.1 hm
    cases found with
    | field decl => cases hmethod
    | method decl => exact Option.some.inj hmethod ▸ hmembers _ hfound
  refine ⟨fun e he => ?_, fun m hm => (hmethods m hm).2⟩
  rcases List.mem_append.1 he with he | he
  · rcases List.mem_append.1 he with he | he
    · obtain ⟨a, ha, he⟩ := List.mem_flatMap.1 he
      exact hattributes a ha e he
    · obtain ⟨f, hf, rfl⟩ := List.mem_map.1 he
      exact hfields f hf
  · obtain ⟨m, hm, he⟩ := List.mem_flatMap.1 he
    obtain ⟨a, ha, he⟩ := List.mem_flatMap.1 he
    exact (hmethods m hm).1 a ha e he

namespace Program

/-- The tokens are those of the program, whose classes are grouped as they are spelled. -/
def ReadAs (p : Program) (ks : List TokenKind) : Prop := p.Spelled ks ∧ ∀ c ∈ p.classes, c.Grouped

variable {p q : Program} {before ks : List TokenKind}

theorem Spelled.concat {d : Declaration} (hd : d.Spelled ks)
    (h : ∀ declarations, p.DeclaredAs declarations → q.DeclaredAs (declarations ++ [d]))
    (hp : p.Spelled before) : q.Spelled (before ++ ks) := by
  obtain ⟨declarations, hdeclared, hspelled⟩ := hp
  exact ⟨declarations ++ [d], h declarations hdeclared, hspelled.concat hd⟩

namespace DeclaredAs

variable {declarations : List Declaration}

theorem concat_space {space : Spanned QualifiedName} (h : p.DeclaredAs declarations)
    (hspace : p.space = none) :
    ({ p with space := some space } : Program).DeclaredAs (declarations ++ [.space space]) := by
  constructor
  · rw [List.filterMap_append, h.space, hspace]
    rfl
  · rw [List.filterMap_append, h.uses]
    exact List.append_nil _
  · rw [List.filterMap_append, h.classes]
    exact List.append_nil _

theorem concat_use (name : Spanned QualifiedName) (h : p.DeclaredAs declarations) :
    ({ p with uses := p.uses ++ [name] } : Program).DeclaredAs (declarations ++ [.use name]) := by
  constructor
  · rw [List.filterMap_append, h.space]
    exact List.append_nil _
  · rw [List.filterMap_append, h.uses]
    rfl
  · rw [List.filterMap_append, h.classes]
    exact List.append_nil _

theorem concat_type (decl : ClassDecl) (h : p.DeclaredAs declarations) :
    ({ p with classes := p.classes ++ [decl] } : Program).DeclaredAs
      (declarations ++ [.type decl]) := by
  constructor
  · rw [List.filterMap_append, h.space]
    exact List.append_nil _
  · rw [List.filterMap_append, h.uses]
    exact List.append_nil _
  · rw [List.filterMap_append, h.classes]
    rfl

end DeclaredAs

theorem ReadAs.space {space : Spanned QualifiedName} (hspace : p.space = none)
    (hks : ks = Declaration.directiveKinds .namespace space.node) (hp : p.ReadAs before) :
    ({ p with space := some space } : Program).ReadAs (before ++ ks) :=
  ⟨Spelled.concat (d := .space space) hks (fun _ h => h.concat_space hspace) hp.1, hp.2⟩

theorem ReadAs.use {name : Spanned QualifiedName}
    (hks : ks = Declaration.directiveKinds .use name.node) (hp : p.ReadAs before) :
    ({ p with uses := p.uses ++ [name] } : Program).ReadAs (before ++ ks) :=
  ⟨Spelled.concat (d := .use name) hks (fun _ h => h.concat_use name) hp.1, hp.2⟩

theorem ReadAs.type {decl : ClassDecl} (hks : decl.Spelled ks) (hdecl : decl.Grouped)
    (hp : p.ReadAs before) :
    ({ p with classes := p.classes ++ [decl] } : Program).ReadAs (before ++ ks) := by
  refine ⟨Spelled.concat (d := .type decl) hks (fun _ h => h.concat_type decl) hp.1, ?_⟩
  exact List.forall_mem_append.2 ⟨hp.2, List.forall_mem_singleton.2 hdecl⟩

end Program

namespace Production.Spells

theorem parameters : Spells parameters fun ps ks _ => ks = parenthesized (parameterKinds ps) := by
  refine (punctuation _).bind fun _ => (listedUntilParen identifier).mono ?_
  rintro ps _ rest ⟨inner, rfl, ⟨rfl, rfl⟩ | hlisted⟩ _ rfl
  · rfl
  · rw [parameterKinds_of_listed hlisted]
    rfl

theorem directive (word : Keyword) : Spells (directive word) fun name ks _ =>
    ks = Declaration.directiveKinds word name.node := by
  refine get_bind fun c => .unseen ?_
  refine (keyword _).bind fun _ => qualifiedName.bind fun name => (punctuation _).bind fun _ =>
    (spanFrom _).bind fun _ => .pure ?_
  rintro rest _ rfl _ rfl _ rfl _ rfl
  simp [Declaration.directiveKinds]

section

variable {l : Level} {below : Option Level} (hl : l.Spells)

include hl

theorem attributeItem : Spells (attributeItem l) fun a ks _ =>
    a.Spelled ks ∧ ∀ e ∈ a.arguments, e.Grouped := by
  refine qualifiedName.bind fun name => (accept (by simp)).bind fun found => ?_
  have hmade : ∀ args : List Expr, Spells (do
      return ⟨← Production.spanFrom name.span, name.node, args⟩) fun (a : Attribute) ks _ =>
        ks = [] ∧ a.name = name.node ∧ a.arguments = args := by
    refine fun args => (spanFrom _).bind fun span => .pure ?_
    rintro rest _ rfl
    exact ⟨rfl, rfl, rfl⟩
  cases found with
  | true =>
    refine (arguments hl.expression).bind fun args => (hmade args).mono ?_
    rintro a _ rest ⟨rfl, hname, hargs⟩ _ ⟨rfl, hgrouped⟩ _ rfl _ rfl
    rw [← hargs] at hgrouped ⊢
    rw [← hname]
    refine ⟨Or.inr ?_, Expr.allGrouped_iff.1 hgrouped⟩
    simp [parenthesized]
  | false =>
    refine (given []).bind fun args => (hmade args).mono ?_
    rintro a _ rest ⟨rfl, hname, hargs⟩ _ ⟨rfl, rfl⟩ _ rfl _ rfl
    rw [← hname]
    refine ⟨Or.inl ⟨?_, hargs⟩, ?_⟩
    · simp
    · simp [hargs]

theorem attributes : Spells (attributes l) fun as ks _ =>
    AttributesSpelled as ks ∧ ∀ a ∈ as, ∀ e ∈ a.arguments, e.Grouped := by
  have hlists : ∀ limit, Spells (attributes.lists l limit) fun as ks _ =>
      AttributesSpelled as ks ∧ ∀ a ∈ as, ∀ e ∈ a.arguments, e.Grouped := by
    intro limit
    induction limit with
    | zero => exact .pure fun _ => ⟨⟨[], rfl, rfl⟩, by simp⟩
    | succ limit ih =>
      refine (accept (by simp)).bind fun found => ?_
      cases found with
      | false =>
        refine .pure ?_
        rintro rest _ rfl
        exact ⟨⟨[], rfl, rfl⟩, by simp⟩
      | true =>
        refine (commaSeparated (attributeItem hl)).bind fun list => (punctuation _).bind fun _ =>
          ih.bind fun more => .pure ?_
        rintro rest later ⟨⟨lists, rfl, hlater⟩, hmore⟩ _ rfl inner hlist _ rfl
        refine ⟨⟨list :: lists, rfl, bracketed inner, later,
          ⟨inner, hlist.imp fun _ _ h => h.1, rfl⟩, hlater, ?_⟩, ?_⟩
        · simp [bracketed]
        · exact List.forall_mem_append.2 ⟨hlist.forall fun _ _ h => h.2, hmore⟩
  exact get_bind fun c => (hlists c.ahead.length).unseen

variable (hbelow : ∀ l ∈ below, l.Spells)

include hbelow

theorem member : Spells (member l below) fun m ks _ => m.Spelled ks ∧ m.Grouped := by
  refine get_bind fun c => .unseen ?_
  refine (attributes hl).bind fun attrs => get_bind fun c => ?_
  split
  · next hkind =>
    dsimp only
    split
    · exact failing fun _ => ⟨_, rfl⟩
    next hhead =>
      have hnone : attrs = [] :=
        List.head?_eq_none_iff.1 (Option.eq_none_iff_forall_ne_some.2 hhead)
      refine advance_bind hkind (by simp) (identifier.bind fun name =>
        (assigned hl.expression _).bind fun value => (spanFrom _).bind fun _ => .pure ?_)
      rintro rest _ rfl _ ⟨rfl, hvalue⟩ _ rfl kinds ⟨hspelled, -⟩
      rw [hnone] at hspelled
      rw [hspelled.eq_nil]
      exact ⟨by simp [Member.Spelled, Field.kinds], hvalue⟩
  · next hkind =>
    refine advance_bind hkind (by simp) (identifier.bind fun name => parameters.bind fun params =>
      (spells_block hbelow).bind fun body => (spanFrom _).bind fun _ => .pure ?_)
    rintro rest _ rfl _ ⟨hbody, inner, hinner, rfl⟩ _ rfl _ rfl kinds ⟨hspelled, hattrs⟩
    refine ⟨⟨kinds, inner, hspelled, hinner, ?_⟩, hattrs, hbody⟩
    simp
  · exact .unexpected _

theorem classDecl : Spells (classDecl l below) fun decl ks _ => decl.Spelled ks ∧ decl.Grouped := by
  refine get_bind fun c => .unseen ?_
  refine (attributes hl).bind fun attrs => (keyword _).bind fun _ => identifier.bind fun name =>
    (punctuation _).bind fun _ => ?_
  refine (recovering (R := fun m ks => m.Spelled ks ∧ m.Grouped) ((member hl hbelow).mono
    fun m ks _ hm => ⟨hm.1.opens.ne_nil, hm⟩)).bind fun read => (punctuation _).bind fun _ =>
      (spanFrom _).bind fun _ => .pure ?_
  rintro rest _ rfl _ rfl body hbody _ rfl _ rfl _ rfl kinds ⟨hspelled, hattrs⟩
  refine ⟨⟨kinds, read.reverse, body, hspelled, rfl, rfl, hbody.imp fun _ _ h => h.1, ?_⟩, ?_⟩
  · simp [braced]
  · exact ClassDecl.grouped_of_members hattrs (hbody.forall fun _ _ h => h.2)

theorem declaration (p : Program) : Spells (declaration l below p) fun q ks _ =>
    ks ≠ [] ∧ ∀ before, p.ReadAs before → q.ReadAs (before ++ ks) := by
  refine get_bind fun c => .unseen ?_
  have hclass : Spells (do
      return { p with classes := p.classes ++ [← Source.classDecl l below] }) fun q ks _ =>
        ks ≠ [] ∧ ∀ before, p.ReadAs before → q.ReadAs (before ++ ks) := by
    refine (classDecl hl hbelow).bind fun decl => .pure ?_
    rintro rest ks ⟨hspelled, hgrouped⟩
    rw [List.append_nil]
    have hne := (Declaration.Spelled.opens (d := .type decl) hspelled).ne_nil
    exact ⟨hne, fun before hp => hp.type hspelled hgrouped⟩
  split
  · refine (directive _).bind fun space => ?_
    split
    · exact .fail _ _
    · next hspace =>
      refine .pure ?_
      rintro rest ks hks
      rw [List.append_nil]
      have hne := (Declaration.Spelled.opens (d := .space space) hks).ne_nil
      exact ⟨hne, fun before hp => hp.space hspace hks⟩
  · refine (directive _).bind fun name => .pure ?_
    rintro rest ks hks
    rw [List.append_nil]
    have hne := (Declaration.Spelled.opens (d := .use name) hks).ne_nil
    exact ⟨hne, fun before hp => hp.use hks⟩
  · exact hclass
  · exact hclass
  · exact .unexpected _

end

end Production.Spells

namespace Program

theorem grouped_of_classes {p : Program} (h : ∀ c ∈ p.classes, c.Grouped) :
    (∀ e ∈ p.expressions, e.Grouped) ∧ ∀ body ∈ p.bodies, Stmt.AllGrouped body := by
  constructor
  · intro e he
    obtain ⟨c, hc, he⟩ := List.mem_flatMap.1 he
    exact (h c hc).1 e he
  · intro body hbody
    obtain ⟨c, hc, hbody⟩ := List.mem_flatMap.1 hbody
    obtain ⟨m, hm, rfl⟩ := List.mem_map.1 hbody
    exact (h c hc).2 m hm

/-- What was read before the only end is all that stands before it. -/
theorem read_of_end {α : Type} {p : α → Prop} {all read rest : List α} {last : α}
    (h : all ++ [last] = read ++ rest) (hall : ∀ a ∈ all, ¬p a) (hlast : p last)
    (hread : ∀ a ∈ read, ¬p a) (hrest : ∀ a ∈ rest.head?, p a) : read = all := by
  rcases List.append_eq_append_iff.1 h with ⟨between, rfl, hend⟩ | ⟨between, rfl, rfl⟩
  · cases between with
    | nil => rw [List.append_nil]
    | cons a more =>
      obtain ⟨rfl, -⟩ := List.cons.inj hend
      exact absurd hlast (hread last (by simp))
  · cases between with
    | nil => rw [List.append_nil]
    | cons a more => exact absurd (hrest a rfl) (hall a (by simp))

/-- An accepted program was read without a fault. -/
theorem run_of_ofTokens {tokens : List Token} {p : Program} (h : ofTokens tokens = .ok p) :
    ∃ d, Production.recoveringUpTo Cursor.atEnd
      (Source.declaration (Level.over (some (Level.withRoom (maxNesting - 1))))
        (some (Level.withRoom (maxNesting - 1))))
      tokens.length empty (Cursor.start tokens) = (p, d) ∧ d.faults = [] := by
  unfold ofTokens at h
  simp only at h
  generalize hrun : Production.recoveringUpTo Cursor.atEnd _ tokens.length empty
    (Cursor.start tokens) = r at h
  obtain ⟨q, d⟩ := r
  split at h
  · next hnone => exact ⟨d, by rw [← Except.ok.inj h], List.isEmpty_iff.1 hnone⟩
  · cases h

/-- An accepted program is spelled by what stands before the end of the tokens. -/
theorem readAs_of_ofTokens {tokens : List Token} {p : Program} (h : ofTokens tokens = .ok p) :
    ∃ read rest, tokens.map (·.node) = read ++ rest ∧ .endOfFile ∉ read ∧
      (∀ kind ∈ rest.head?, kind = .endOfFile) ∧ p.ReadAs read := by
  have hl : (Level.over (some (Level.withRoom (maxNesting - 1)))).Spells :=
    Level.withRoom_spells maxNesting
  have hbelow : ∀ l ∈ some (Level.withRoom (maxNesting - 1)), l.Spells := by
    intro l hfound
    exact Option.some.inj hfound ▸ Level.withRoom_spells (maxNesting - 1)
  have hempty : empty.ReadAs [] := ⟨⟨[], ⟨rfl, rfl, rfl⟩, rfl⟩, by simp [empty]⟩
  obtain ⟨d, hrun, hnone⟩ := run_of_ofTokens h
  obtain ⟨reported, hfaults, hread⟩ := Production.Spells.recoveringUpTo
    (Production.Spells.declaration hl hbelow) tokens.length hrun
  obtain ⟨read, hkinds, hend, hI, hdone⟩ := hread (hfaults.symm.trans hnone)
  refine ⟨read, d.kinds, hkinds, hend, ?_, hI [] hempty⟩
  intro kind hkind
  rcases hdone with hstop | hlimit
  · have hnext : d.kind = kind := by
      rw [d.kind_eq, List.headD_eq_head?_getD, hkind, Option.getD_some]
    rw [← hnext]
    exact of_decide_eq_true hstop
  · have hlength := congrArg List.length hkinds
    have htotal : (Cursor.start tokens).kinds.length = tokens.length := List.length_map _
    rw [htotal, List.length_append] at hlength
    rw [List.eq_nil_of_length_eq_zero (by omega : d.kinds.length = 0)] at hkind
    cases hkind

/-- All tokens of an accepted program belong to its declarations, in their order, and its
expressions are grouped as they are spelled. -/
theorem spelled_of_ofTokens {tokens : List Token} {ks : List TokenKind} {p : Program}
    (htokens : tokens.map (·.node) = ks ++ [.endOfFile]) (hks : .endOfFile ∉ ks)
    (h : ofTokens tokens = .ok p) :
    p.Spelled ks ∧ (∀ e ∈ p.expressions, e.Grouped) ∧ ∀ body ∈ p.bodies, Stmt.AllGrouped body := by
  obtain ⟨read, rest, hsplit, hend, hrest, hspelled, hclasses⟩ := readAs_of_ofTokens h
  have hread := read_of_end (p := (· = .endOfFile)) (htokens.symm.trans hsplit)
    (fun kind hkind hends => hks (hends ▸ hkind)) rfl
    (fun kind hkind hends => hend (hends ▸ hkind)) hrest
  rw [← hread]
  exact ⟨hspelled, grouped_of_classes hclasses⟩

end Program

/-- A class whose method goes on after `else` with another conditional. -/
def ladderKinds : List TokenKind :=
  [.keyword .use, .identifier "a", .punctuation .dot, .identifier "b", .punctuation .semicolon,
    .punctuation .leftBracket, .identifier "Slow", .punctuation .leftParen,
    .punctuation .rightParen, .punctuation .rightBracket, .keyword .classDecl, .identifier "A",
    .punctuation .leftBrace, .keyword .fn, .identifier "f", .punctuation .leftParen,
    .identifier "x", .punctuation .rightParen, .punctuation .leftBrace, .keyword .if,
    .identifier "x", .operator .lt, .integer .zero, .operator .plus, .identifier "x",
    .punctuation .leftBrace, .punctuation .rightBrace, .keyword .else, .keyword .if,
    .operator .bang, .identifier "g", .punctuation .leftParen, .identifier "x",
    .punctuation .rightParen, .punctuation .leftBrace, .keyword .return, .punctuation .semicolon,
    .punctuation .rightBrace, .punctuation .rightBrace, .punctuation .rightBrace]

def ladder : List Token :=
  (ladderKinds ++ [TokenKind.endOfFile]).map fun kind => ⟨kind, Span.empty 0⟩

theorem spelled_of_ofTokens_ladder : ∃ p, Program.ofTokens ladder = .ok p ∧
    p.Spelled ladderKinds ∧ (∀ e ∈ p.expressions, e.Grouped) ∧
      ∀ body ∈ p.bodies, Stmt.AllGrouped body := by
  have hread : (Program.ofTokens ladder).toOption.isSome = true := by decide +kernel
  cases hp : Program.ofTokens ladder with
  | error faults =>
    rw [hp] at hread
    cases hread
  | ok p => exact ⟨p, rfl, Program.spelled_of_ofTokens rfl (by decide) hp⟩

end TestBench.Source
