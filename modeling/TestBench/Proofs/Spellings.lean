import TestBench.Proofs.ProgramSpelling

/-!
Spellings as lists of tokens: how they are put together, with which tokens they
begin, and that the standard ones are among them. A spelling begins with a token
that ends neither a block nor a file and that does not go on with a conditional.
-/
namespace TestBench.Source

section Lists

variable {α : Type} {R T : α → List TokenKind → Prop}

theorem Sequence.flatMap {β : Type} {g : β → α} {f : β → List TokenKind} (h : ∀ b, R (g b) (f b)) :
    ∀ bs : List β, Sequence R (bs.map g) (bs.flatMap f)
  | [] => rfl
  | b :: rest => ⟨f b, rest.flatMap f, h b, Sequence.flatMap h rest, List.flatMap_cons⟩

theorem Sequence.append : ∀ {as bs : List α} {ks later : List TokenKind}, Sequence R as ks →
    Sequence R bs later → Sequence R (as ++ bs) (ks ++ later)
  | [], _, _, _, rfl, hbs => hbs
  | _ :: _, _, _, later, ⟨first, between, hfirst, hbetween, hks⟩, hbs =>
    ⟨first, between ++ later, hfirst, hbetween.append hbs, by rw [hks, List.append_assoc]⟩

theorem Sequence.concat {a : α} {as : List α} {ks last : List TokenKind} (ha : R a last)
    (h : Sequence R as ks) : Sequence R (as ++ [a]) (ks ++ last) :=
  h.append ⟨last, [], ha, rfl, (List.append_nil last).symm⟩

theorem Listed.imp (h : ∀ a ks, R a ks → T a ks) :
    ∀ {as : List α} {ks : List TokenKind}, Listed R as ks → Listed T as ks
  | [], _, hnone => hnone
  | [a], ks, hlast => h a ks hlast
  | a :: _ :: _, _, ⟨first, later, hfirst, hlater, hks⟩ =>
    ⟨first, later, h a first hfirst, hlater.imp h, hks⟩

theorem Listed.forall {P : α → Prop} (h : ∀ a ks, R a ks → P a) :
    ∀ {as : List α} {ks : List TokenKind}, Listed R as ks → ∀ a ∈ as, P a
  | [], _, _ => fun _ ha => absurd ha List.not_mem_nil
  | [a], ks, hlast => List.forall_mem_singleton.2 (h a ks hlast)
  | a :: _ :: _, _, ⟨first, _, hfirst, hlater, _⟩ =>
    List.forall_mem_cons.2 ⟨h a first hfirst, hlater.forall h⟩

theorem Listed.head : ∀ {as : List α} {ks : List TokenKind}, Listed R as ks →
    ∃ a first later, R a first ∧ ks = first ++ later
  | [], _, hnone => hnone.elim
  | [a], ks, hlast => ⟨a, ks, [], hlast, (List.append_nil ks).symm⟩
  | a :: _ :: _, _, ⟨first, later, hfirst, _, hks⟩ =>
    ⟨a, first, .punctuation .comma :: later, hfirst, hks⟩

theorem Sequence.imp (h : ∀ a ks, R a ks → T a ks) :
    ∀ {as : List α} {ks : List TokenKind}, Sequence R as ks → Sequence T as ks
  | [], _, hnone => hnone
  | a :: _, _, ⟨first, later, hfirst, hlater, hks⟩ =>
    ⟨first, later, h a first hfirst, hlater.imp h, hks⟩

theorem Sequence.forall {P : α → Prop} (h : ∀ a ks, R a ks → P a) :
    ∀ {as : List α} {ks : List TokenKind}, Sequence R as ks → ∀ a ∈ as, P a
  | [], _, _ => fun _ ha => absurd ha List.not_mem_nil
  | a :: _, _, ⟨first, _, hfirst, hlater, _⟩ =>
    List.forall_mem_cons.2 ⟨h a first hfirst, hlater.forall h⟩

theorem Expr.kinds_of_listed : ∀ {es : List Expr} {ks : List TokenKind},
    Listed (fun e ks => ks = e.kinds) es ks → ks = kindsOfAll es
  | [], _, hnone => hnone.elim
  | [_], _, hlast => hlast
  | _ :: _ :: _, _, ⟨_, _, hfirst, hlater, hks⟩ => by
    rw [hks, hfirst, kinds_of_listed hlater, kindsOfAll]

theorem parameterKinds_of_listed : ∀ {ps : List (Spanned String)} {ks : List TokenKind},
    Listed (fun p ks => ks = [.identifier p.node]) ps ks → ks = parameterKinds ps
  | [], _, hnone => hnone.elim
  | [_], _, hlast => hlast
  | _ :: _ :: _, _, ⟨_, _, hfirst, hlater, hks⟩ => by
    rw [hks, hfirst, parameterKinds_of_listed hlater, parameterKinds, List.singleton_append]

end Lists

theorem Expr.allGrouped_iff {es : List Expr} : AllGrouped es ↔ ∀ e ∈ es, e.Grouped := by
  induction es with
  | nil => simp [AllGrouped]
  | cons e rest ih => rw [AllGrouped, ih, List.forall_mem_cons]

theorem Stmt.allGrouped_iff {body : List Stmt} : AllGrouped body ↔ ∀ s ∈ body, s.Grouped := by
  induction body with
  | nil => simp [AllGrouped]
  | cons s rest ih => rw [AllGrouped, ih, List.forall_mem_cons]

theorem Stmt.allSpelled_iff {body : List Stmt} {ks : List TokenKind} :
    AllSpelled body ks ↔ Sequence Stmt.Spelled body ks := by
  induction body generalizing ks with
  | nil => rw [AllSpelled, Sequence]
  | cons s rest ih => simp only [AllSpelled, Sequence, ih]

theorem parameters_listed_cons (p : Spanned String) : ∀ rest : List (Spanned String),
    Listed (fun p ks => ks = [.identifier p.node]) (p :: rest) (parameterKinds (p :: rest))
  | [] => rfl
  | q :: rest => ⟨[.identifier p.node], _, rfl, parameters_listed_cons q rest, rfl⟩

theorem parameters_listed : ∀ ps : List (Spanned String), ps = [] ∧ parameterKinds ps = [] ∨
    Listed (fun p ks => ks = [.identifier p.node]) ps (parameterKinds ps)
  | [] => Or.inl ⟨rfl, rfl⟩
  | p :: rest => Or.inr (parameters_listed_cons p rest)

/-- The kinds of tokens with which expressions begin. -/
def beginsExpr : TokenKind → Bool
  | .integer _ | .text _ | .identifier _ | .operator .minus | .operator .bang => true
  | .keyword word => word = .true || word = .false
  | .punctuation sign => sign = .leftParen
  | _ => false

namespace Expr

theorem kinds_begin : ∀ e : Expr, ∃ kind more, e.kinds = kind :: more ∧ beginsExpr kind = true
  | constant _ value => by
    refine ⟨value.kind, [], rfl, ?_⟩
    match value with
    | .integer _ | .text _ => rfl
    | .boolean true | .boolean false => rfl
  | name _ spelled => ⟨.identifier spelled, [], rfl, rfl⟩
  | unary _ op operand => ⟨.operator op.sign, operand.kinds, rfl, by cases op <;> rfl⟩
  | binary _ op left right => by
    obtain ⟨kind, more, hkinds, hbegins⟩ := left.kinds_begin
    exact ⟨kind, _, by rw [kinds, hkinds, List.cons_append], hbegins⟩
  | call _ callee _ => ⟨.identifier callee.node.first, _, rfl, rfl⟩
  | paren _ _ => ⟨.punctuation .leftParen, _, rfl, rfl⟩

theorem listed_cons (e : Expr) : ∀ rest : List Expr,
    Listed (fun e ks => ks = e.kinds) (e :: rest) (kindsOfAll (e :: rest))
  | [] => rfl
  | f :: rest => ⟨e.kinds, _, rfl, listed_cons f rest, rfl⟩

theorem listed_kinds : ∀ es : List Expr, es = [] ∧ kindsOfAll es = [] ∨
    Listed (fun e ks => ks = e.kinds) es (kindsOfAll es)
  | [] => Or.inl ⟨rfl, rfl⟩
  | e :: rest => Or.inr (listed_cons e rest)

mutual

theorem assign_not_mem : ∀ e : Expr, TokenKind.operator .assign ∉ e.kinds
  | constant _ value => by
    match value with
    | .integer _ | .text _ => simp [kinds, Constant.kind]
    | .boolean true | .boolean false => simp [kinds, Constant.kind]
  | name _ _ => by simp [kinds]
  | unary _ op operand => by
    have hoperand := operand.assign_not_mem
    cases op <;> simp [kinds, UnaryOp.sign, hoperand]
  | binary _ op left right => by
    have hleft := left.assign_not_mem
    have hright := right.assign_not_mem
    cases op <;> simp [kinds, BinaryOp.sign, hleft, hright]
  | call _ callee arguments => by
    have harguments := assign_not_mem_all arguments
    simp [kinds, QualifiedName.kinds, dottedKinds, parenthesized, harguments]
  | paren _ inner => by
    have hinner := inner.assign_not_mem
    simp [kinds, parenthesized, hinner]

theorem assign_not_mem_all : ∀ es : List Expr, TokenKind.operator .assign ∉ kindsOfAll es
  | [] => by simp [kindsOfAll]
  | [e] => e.assign_not_mem
  | e :: f :: rest => by
    have hfirst := e.assign_not_mem
    have hrest := assign_not_mem_all (f :: rest)
    simp [kindsOfAll, hfirst, hrest]

end

end Expr

/-- The kinds of tokens with which an item of a block or of a class may begin. -/
def beginsItem : TokenKind → Bool
  | .punctuation .rightBrace | .keyword .else | .endOfFile => false
  | _ => true

/-- These tokens begin an item. -/
def Opens (ks : List TokenKind) : Prop := ∃ kind more, ks = kind :: more ∧ beginsItem kind = true

theorem Expr.opens (e : Expr) (rest : List TokenKind) : Opens (e.kinds ++ rest) := by
  obtain ⟨kind, more, hkinds, hbegins⟩ := e.kinds_begin
  refine ⟨kind, more ++ rest, by rw [hkinds, List.cons_append], ?_⟩
  unfold beginsItem
  split
  · exact absurd hbegins (by decide)
  · exact absurd hbegins (by decide)
  · exact absurd hbegins (by decide)
  · rfl

theorem Expr.begins_head (e : Expr) (rest : List TokenKind) :
    beginsExpr ((e.kinds ++ rest).headD .endOfFile) = true := by
  obtain ⟨kind, more, hkinds, hbegins⟩ := e.kinds_begin
  rw [hkinds]
  exact hbegins

theorem Opens.ne_nil {ks : List TokenKind} (h : Opens ks) : ks ≠ [] := by
  obtain ⟨kind, more, rfl, -⟩ := h
  exact List.cons_ne_nil kind more

theorem Stmt.Spelled.opens {s : Stmt} {ks : List TokenKind} (h : s.Spelled ks) : Opens ks := by
  cases s with
  | bind | assign | «return» =>
    rw [Stmt.Spelled] at h
    exact ⟨_, _, h, rfl⟩
  | ifThen | «while» =>
    obtain ⟨inner, -, hks⟩ := h
    exact ⟨_, _, hks, rfl⟩
  | ifElse =>
    obtain ⟨inner, other, branch, -, -, -, hks⟩ := h
    exact ⟨_, _, hks, rfl⟩
  | expr span value =>
    rw [Stmt.Spelled] at h
    exact h ▸ value.opens _

theorem Stmt.Spelled.conditional {s : Stmt} {ks : List TokenKind} (h : s.Spelled ks)
    (hs : s.isConditional = true) : ∃ more, ks = .keyword .if :: more := by
  cases s with
  | ifThen =>
    obtain ⟨inner, -, hks⟩ := h
    exact ⟨_, hks⟩
  | ifElse =>
    obtain ⟨inner, other, branch, -, -, -, hks⟩ := h
    exact ⟨_, hks⟩
  | _ => cases hs

/-- Attributes begin with a bracket. -/
theorem AttributesSpelled.head {attributes : List Attribute} {ks : List TokenKind}
    (h : AttributesSpelled attributes ks) :
    ks = [] ∨ ∃ more, ks = .punctuation .leftBracket :: more := by
  obtain ⟨lists, -, hspelled⟩ := h
  cases lists with
  | nil => exact Or.inl hspelled
  | cons list rest =>
    obtain ⟨first, later, ⟨inner, -, rfl⟩, -, hks⟩ := hspelled
    exact Or.inr ⟨_, hks⟩

/-- Each list holds an attribute, so there are no tokens where there are no attributes. -/
theorem AttributesSpelled.eq_nil {ks : List TokenKind} (h : AttributesSpelled [] ks) : ks = [] := by
  obtain ⟨lists, hlists, hspelled⟩ := h
  cases lists with
  | nil => exact hspelled
  | cons list more =>
    obtain ⟨rfl, -⟩ := List.append_eq_nil_iff.1 hlists
    obtain ⟨first, later, ⟨inner, hnone, -⟩, -⟩ := hspelled
    exact hnone.elim

/-- After its attributes, if it has any, a member or a class begins with a keyword. -/
theorem AttributesSpelled.opens {attributes : List Attribute} {ks rest : List TokenKind}
    {word : Keyword} (h : AttributesSpelled attributes ks) (hword : word ≠ .else) :
    Opens (ks ++ .keyword word :: rest) := by
  rcases h.head with rfl | ⟨more, rfl⟩
  · exact ⟨.keyword word, rest, rfl, by cases word <;> first | rfl | exact absurd rfl hword⟩
  · exact ⟨_, _, rfl, rfl⟩

theorem Member.Spelled.opens {m : Member} {ks : List TokenKind} (h : m.Spelled ks) : Opens ks := by
  cases m with
  | field f => exact ⟨_, _, h, rfl⟩
  | method m =>
    obtain ⟨attributes, body, hattributes, -, rfl⟩ := h
    exact hattributes.opens (by simp)

theorem Declaration.Spelled.opens {d : Declaration} {ks : List TokenKind} (h : d.Spelled ks) :
    Opens ks := by
  cases d with
  | space name | use name => exact ⟨_, _, h, rfl⟩
  | type decl =>
    obtain ⟨attributes, members, body, hattributes, -, -, -, rfl⟩ := h
    exact hattributes.opens (by simp)

/-- Neither an item nor the end of a block goes on with a conditional. -/
theorem Sequence.head_ne_else {β : Type} {S : β → List TokenKind → Prop} {bs : List β}
    {ks rest : List TokenKind} (h : Sequence S bs ks) (hopens : ∀ b first, S b first → Opens first)
    (hrest : rest.headD .endOfFile = .punctuation .rightBrace) :
    (ks ++ rest).headD .endOfFile ≠ .keyword .else := by
  cases bs with
  | nil =>
    obtain rfl : ks = [] := h
    rw [List.nil_append, hrest]
    simp
  | cons b more =>
    obtain ⟨first, later, hfirst, -, rfl⟩ := h
    obtain ⟨kind, tail, rfl, hbegins⟩ := hopens b first hfirst
    rintro rfl
    cases hbegins

/-! The standard spellings are among those that are read. -/

section Standard

variable {α : Type} {S : α → List TokenKind → Prop} {f : α → List TokenKind}

theorem listed_intercalate (h : ∀ a, S a (f a)) (a : α) : ∀ rest : List α,
    Listed S (a :: rest) ([.punctuation .comma].intercalate ((a :: rest).map f))
  | [] => by
    have hlast : [TokenKind.punctuation .comma].intercalate ([a].map f) = f a := List.append_nil _
    rw [hlast]
    exact h a
  | b :: rest => by
    refine ⟨f a, _, h a, listed_intercalate h b rest, ?_⟩
    simp [List.intercalate]

end Standard

theorem Attribute.kinds_spelled (a : Attribute) : a.Spelled a.kinds := by
  unfold Attribute.kinds
  split
  · next hnone => exact Or.inl ⟨List.append_nil _, List.isEmpty_iff.1 hnone⟩
  · exact Or.inr rfl

theorem attributeKinds_spelled (attributes : List Attribute) :
    AttributesSpelled attributes (attributeKinds attributes) := by
  cases attributes with
  | nil => exact ⟨[], rfl, rfl⟩
  | cons a rest =>
    refine ⟨[a :: rest], List.append_nil _, attributeKinds (a :: rest), [], ⟨_, ?_, rfl⟩, rfl,
      (List.append_nil _).symm⟩
    exact listed_intercalate Attribute.kinds_spelled a rest

theorem Stmt.branchKinds_branch (ladders : Bool) (otherwise : List Stmt) (inner : List TokenKind) :
    Branch otherwise inner (branchKinds ladders otherwise inner) := by
  unfold branchKinds
  split
  · next s =>
    split
    · next hladder =>
      rw [Bool.and_eq_true] at hladder
      exact Or.inr ⟨rfl, s, rfl, hladder.2⟩
    · exact Or.inl rfl
  · exact Or.inl rfl

mutual

theorem Stmt.kinds_spelled (ladders : Bool) : ∀ s : Stmt, s.Spelled (s.kinds ladders)
  | .bind .. | .assign .. | .return .. | .expr .. => rfl
  | .ifThen _ _ body => ⟨_, Stmt.kindsOfAll_spelled ladders body, rfl⟩
  | .ifElse _ _ body otherwise =>
    ⟨_, _, _, Stmt.kindsOfAll_spelled ladders body, Stmt.kindsOfAll_spelled ladders otherwise,
      Stmt.branchKinds_branch ladders otherwise _, rfl⟩
  | .while _ _ body => ⟨_, Stmt.kindsOfAll_spelled ladders body, rfl⟩

theorem Stmt.kindsOfAll_spelled (ladders : Bool) :
    ∀ body : List Stmt, Stmt.AllSpelled body (Stmt.kindsOfAll ladders body)
  | [] => rfl
  | s :: rest => ⟨_, _, s.kinds_spelled ladders, Stmt.kindsOfAll_spelled ladders rest, rfl⟩

end

theorem Method.kinds_spelled (ladders : Bool) (m : Method) : m.Spelled (m.kinds ladders) :=
  ⟨_, _, attributeKinds_spelled m.attributes, Stmt.kindsOfAll_spelled ladders m.body, rfl⟩

theorem ClassDecl.kinds_spelled (ladders : Bool) (c : ClassDecl) : c.Spelled (c.kinds ladders) := by
  have hfields : Sequence Member.Spelled (c.fields.map Member.field)
      (c.fields.flatMap Field.kinds) :=
    Sequence.flatMap (R := Member.Spelled) (g := Member.field) (fun _ => rfl) c.fields
  have hmethods : Sequence Member.Spelled (c.methods.map Member.method)
      (c.methods.flatMap (Method.kinds ladders)) :=
    Sequence.flatMap (R := Member.Spelled) (g := Member.method) (Method.kinds_spelled ladders)
      c.methods
  refine ⟨_, c.fields.map Member.field ++ c.methods.map Member.method, _,
    attributeKinds_spelled c.attributes, ?_, ?_, hfields.append hmethods, rfl⟩
  · simp [List.filterMap_map, Function.comp_def, Member.field?]
  · simp [List.filterMap_map, Function.comp_def, Member.method?]

theorem Program.kinds_spelled (ladders : Bool) (p : Program) : p.Spelled (p.kinds ladders) := by
  have hspaces : Sequence Declaration.Spelled (p.space.toList.map Declaration.space)
      (p.space.toList.flatMap fun name => Declaration.directiveKinds .namespace name.node) :=
    Sequence.flatMap (R := Declaration.Spelled) (g := Declaration.space) (fun _ => rfl) _
  have huses : Sequence Declaration.Spelled (p.uses.map Declaration.use)
      (p.uses.flatMap fun name => Declaration.directiveKinds .use name.node) :=
    Sequence.flatMap (R := Declaration.Spelled) (g := Declaration.use) (fun _ => rfl) p.uses
  have hclasses : Sequence Declaration.Spelled (p.classes.map Declaration.type)
      (p.classes.flatMap (ClassDecl.kinds ladders)) :=
    Sequence.flatMap (R := Declaration.Spelled) (g := Declaration.type)
      (ClassDecl.kinds_spelled ladders) p.classes
  have hnone : ∀ {α β : Type} (as : List α), as.filterMap (fun _ => (none : Option β)) = [] :=
    fun as => List.filterMap_eq_nil_iff.2 fun _ _ => rfl
  refine ⟨_, ⟨?_, ?_, ?_⟩, hspaces.append (huses.append hclasses)⟩
  · simp [List.filterMap_map, Function.comp_def, Declaration.space?]
  · simp [List.filterMap_map, Function.comp_def, Declaration.use?, hnone]
  · simp [List.filterMap_map, Function.comp_def, Declaration.type?, hnone]

end TestBench.Source
