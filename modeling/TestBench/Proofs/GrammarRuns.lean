import TestBench.Proofs.GrammarInvariants

/-!
What productions keep and what they read. A property of tokens that all tokens
ahead have is one that all tokens ahead still have after any production, because
productions only skip tokens. What a production reads has a property if its
parts have theirs; the rules here follow the ways in which productions are put
together, and the productions that read no expression are done once and for all.
-/
namespace TestBench.Source

/-- All tokens ahead satisfy `good`. -/
def Cursor.Holds (good : Token → Prop) (c : Cursor) : Prop := ∀ t ∈ c.ahead, good t

namespace Cursor

variable {good : Token → Prop} {c : Cursor}

theorem Holds.advance (h : c.Holds good) : c.advance.Holds good := by
  unfold Cursor.advance
  split
  · exact h
  · next t rest hahead =>
    split
    · exact h
    · exact fun u hu => h u (hahead ▸ List.mem_cons_of_mem t hu)

theorem synchronizeFrom_subset (last : Span) (tokens : List Token) :
    (synchronizeFrom last tokens).1 ⊆ tokens := by
  induction tokens generalizing last with
  | nil => exact List.Subset.refl _
  | cons t rest ih =>
    rw [synchronizeFrom]
    split
    · exact List.subset_cons_self t rest
    split
    · exact List.Subset.refl _
    · exact List.subset_cons_of_subset t (ih t.span)

theorem Holds.recover (h : c.Holds good) (size : Nat) (fault : Spanned SyntaxFault) :
    (c.recover size fault).Holds good := by
  have hnext : ((c.report fault).synchronize).Holds good :=
    fun t ht => h t (synchronizeFrom_subset _ _ ht)
  simp only [Cursor.recover]
  split
  · exact hnext.advance
  · exact hnext

/-- The next token is one of those ahead, unless it stands for the end of a stream. -/
theorem Holds.peek (h : c.Holds good) (hend : c.kind ≠ .endOfFile) : good c.peek := by
  unfold Cursor.kind Cursor.peek at *
  cases hahead : c.ahead with
  | nil => exact absurd (by rw [hahead]; rfl) hend
  | cons t rest => exact h t (hahead ▸ List.mem_cons_self)

end Cursor

namespace Production

variable {α β σ : Type}

/-- If all tokens ahead satisfy `good`, they do so afterwards, and what was read satisfies `P`. -/
def Reads (good : Token → Prop) (p : Production α) (P : α → Prop) : Prop :=
  ∀ c r d, p c = (r, d) → c.Holds good → d.Holds good ∧ ∀ a, r = .ok a → P a

/-- That the tokens ahead satisfy `good` is an invariant of reading, whatever the faults. -/
theorem holds_invariant (good : Token → Prop) :
    Cursor.Invariant (Cursor.Holds good) fun _ => True where
  advance := Cursor.Holds.advance
  atDepth hc _ := hc
  recover hc _ size := hc.recover size _
  atPeek _ _ := trivial

theorem reads_iff_keeps {good : Token → Prop} {p : Production α} {P : α → Prop} :
    Reads good p P ↔ Keeps (Cursor.Holds good) (fun _ => True) p P := by
  constructor
  · intro h c r d hrun hc
    obtain ⟨hd, hP⟩ := h c r d hrun hc
    exact ⟨hd, hP, fun _ _ => trivial⟩
  · intro h c r d hrun hc
    obtain ⟨hd, hP, -⟩ := h c r d hrun hc
    exact ⟨hd, hP⟩

namespace Reads

variable {good : Token → Prop} {p : Production α} {P Q : α → Prop} {R : β → Prop}

theorem keeps (h : Reads good p P) : Keeps (Cursor.Holds good) (fun _ => True) p P :=
  reads_iff_keeps.1 h

theorem mono (h : Reads good p P) (hPQ : ∀ a, P a → Q a) : Reads good p Q :=
  reads_iff_keeps.2 (h.keeps.mono hPQ)

theorem any (h : Reads good p P) : Reads good p fun _ => True := h.mono fun _ _ => trivial

theorem pure {a : α} (h : P a) : Reads good (pure a) P := reads_iff_keeps.2 (.pure h)

theorem fail (fault : SyntaxFault) (span : Span) :
    Reads good (fail fault span : Production α) P := reads_iff_keeps.2 (.fail trivial)

theorem bind {next : α → Production β} (h : Reads good p P)
    (hnext : ∀ a, P a → Reads good (next a) R) : Reads good (p >>= next) R :=
  reads_iff_keeps.2 (h.keeps.bind fun a ha => (hnext a ha).keeps)

theorem map {f : α → β} (h : Reads good p P) (hf : ∀ a, P a → R (f a)) :
    Reads good (f <$> p) R := reads_iff_keeps.2 (h.keeps.map hf)

theorem get : Reads good (get : Production Cursor) (Cursor.Holds good) :=
  reads_iff_keeps.2 .get

theorem advance : Reads good (modify (·.advance) : Production PUnit) fun _ => True :=
  reads_iff_keeps.2 (.advance (holds_invariant good))

theorem ite {q : Production α} {condition : Prop} [Decidable condition] (h : Reads good p P)
    (hq : Reads good q P) : Reads good (if condition then p else q) P :=
  reads_iff_keeps.2 (h.keeps.ite hq.keeps)

theorem inside (h : Reads good p P) : Reads good (inside p) P :=
  reads_iff_keeps.2 (h.keeps.inside (holds_invariant good))

theorem enter : Reads good enter fun _ => True :=
  reads_iff_keeps.2 (.enter (holds_invariant good))

theorem keepingDepth (h : Reads good p P) : Reads good (keepingDepth p) P :=
  reads_iff_keeps.2 (h.keeps.keepingDepth (holds_invariant good))

theorem unexpected (what : Expectation) : Reads good (unexpected what : Production α) P :=
  reads_iff_keeps.2 (.unexpected (holds_invariant good) what)

theorem isNext (kind : TokenKind) : Reads good (isNext kind) fun _ => True :=
  reads_iff_keeps.2 (.isNext kind)

theorem accept (kind : TokenKind) : Reads good (accept kind) fun _ => True :=
  reads_iff_keeps.2 (.accept (holds_invariant good) kind)

theorem expect (what : Expectation) (kind : TokenKind) :
    Reads good (expect what kind) fun _ => True :=
  reads_iff_keeps.2 (.expect (holds_invariant good) what kind)

theorem keyword (word : Keyword) : Reads good (keyword word) fun _ => True := expect _ _

theorem punctuation (sign : Punctuation) : Reads good (punctuation sign) fun _ => True := expect _ _

theorem spanFrom (first : Span) : Reads good (spanFrom first) fun _ => True :=
  get.bind fun _ _ => .pure trivial

theorem commaSeparated (h : Reads good p P) :
    Reads good (commaSeparated p) fun as => ∀ a ∈ as, P a :=
  reads_iff_keeps.2 (h.keeps.commaSeparated (holds_invariant good))

theorem untilParen (h : Reads good p P) : Reads good (untilParen p) fun as => ∀ a ∈ as, P a :=
  reads_iff_keeps.2 (h.keeps.untilParen (holds_invariant good))

/-- Whatever faults there are, what is collected is what the items that were read make of it. -/
theorem recoveringUpTo {stop : Cursor → Bool} {item : σ → Production σ} {I : σ → Prop}
    (h : ∀ s, I s → Reads good (item s) I) (limit : Nat) {s : σ} {c : Cursor} (hs : I s)
    (hc : c.Holds good) : I (recoveringUpTo stop item limit s c).1 ∧
      (recoveringUpTo stop item limit s c).2.Holds good :=
  Keeps.recoveringUpTo (holds_invariant good) (fun s hs => (h s hs).keeps) limit hs hc

theorem recovering {stop : Cursor → Bool} {item : σ → Production σ} {I : σ → Prop}
    (h : ∀ s, I s → Reads good (item s) I) {s : σ} (hs : I s) :
    Reads good (recovering stop item s) I :=
  reads_iff_keeps.2 (.recovering (holds_invariant good) (fun s hs => (h s hs).keeps) hs)

end Reads

end Production

/-- One of the tokens that satisfy `good` is this name. -/
def Named (good : Token → Prop) (name : String) : Prop :=
  ∃ t, good t ∧ t.node = .identifier name

section Declarations

variable (good : Token → Prop) (reading : Expr → Prop) (executing : List Stmt → Prop)

/-- The name is spelled by good tokens and the arguments are read as they should. -/
structure Attribute.ReadFrom (a : Attribute) : Prop where
  name : ∀ part ∈ a.name.parts, Named good part
  arguments : ∀ e ∈ a.arguments, reading e

structure Field.ReadFrom (f : Field) : Prop where
  name : Named good f.name
  value : reading f.value

structure Method.ReadFrom (m : Method) : Prop where
  attributes : ∀ a ∈ m.attributes, a.ReadFrom good reading
  name : Named good m.name.node
  body : executing m.body

structure ClassDecl.ReadFrom (c : ClassDecl) : Prop where
  attributes : ∀ a ∈ c.attributes, a.ReadFrom good reading
  name : Named good c.name.node
  fields : ∀ f ∈ c.fields, f.ReadFrom good reading
  methods : ∀ m ∈ c.methods, m.ReadFrom good reading executing

structure Program.ReadFrom (p : Program) : Prop where
  space : ∀ space, p.space = some space → ∀ part ∈ space.node.parts, Named good part
  classes : ∀ c ∈ p.classes, c.ReadFrom good reading executing

end Declarations

namespace Production.Reads

variable {good : Token → Prop} {reading : Expr → Prop} {executing : List Stmt → Prop}

theorem identifier : Reads good identifier fun s => Named good s.node := by
  refine get.bind fun c hc => ?_
  simp only
  split
  · next name hname =>
    have hend : c.kind ≠ .endOfFile := by
      rw [Cursor.kind, hname]
      simp
    exact advance.bind fun _ _ => .pure ⟨c.peek, hc.peek hend, hname⟩
  · exact .unexpected _

theorem dotted (limit : Nat) :
    Reads good (qualifiedName.dotted limit) fun parts => ∀ part ∈ parts, Named good part := by
  induction limit with
  | zero => exact .pure (by simp)
  | succ limit ih =>
    refine (accept _).bind fun _ _ => ite ?_ (.pure (by simp))
    exact identifier.bind fun part hpart => ih.bind fun parts hparts =>
      .pure (List.forall_mem_cons.2 ⟨hpart, hparts⟩)

theorem qualifiedName :
    Reads good qualifiedName fun n => ∀ part ∈ n.node.parts, Named good part :=
  identifier.bind fun _ hhead => get.bind fun _ _ => (dotted _).bind fun _ hrest =>
    (spanFrom _).bind fun _ _ => .pure (List.forall_mem_cons.2 ⟨hhead, hrest⟩)

theorem arguments {expression : Production Expr} (h : Reads good expression reading) :
    Reads good (arguments expression) fun args => ∀ e ∈ args, reading e := h.untilParen

theorem assigned {expression : Production Expr} (h : Reads good expression reading)
    (what : Expectation) : Reads good (assigned expression what) reading :=
  (expect _ _).bind fun _ _ => h.bind fun _ hvalue => (punctuation _).bind fun _ _ => .pure hvalue

theorem parameters : Reads good parameters fun _ => True :=
  (punctuation _).bind fun _ _ => identifier.untilParen.any

theorem directive (word : Keyword) :
    Reads good (directive word) fun n => ∀ part ∈ n.node.parts, Named good part :=
  get.bind fun _ _ => (keyword _).bind fun _ _ => qualifiedName.bind fun _ hname =>
    (punctuation _).bind fun _ _ => (spanFrom _).bind fun _ _ => .pure hname

variable {l : Level} {below : Option Level}

section

variable (hexpression : Reads good l.expression reading)

include hexpression

theorem attributeItem : Reads good (attributeItem l) (·.ReadFrom good reading) := by
  refine qualifiedName.bind fun name hname => (accept _).bind fun _ _ => ?_
  have hmade : ∀ args : List Expr, (∀ e ∈ args, reading e) →
      Reads good (do return ⟨← Production.spanFrom name.span, name.node, args⟩)
        (Attribute.ReadFrom good reading) :=
    fun args hargs => (spanFrom _).bind fun _ _ => .pure ⟨hname, hargs⟩
  exact ite ((arguments hexpression).bind hmade) (bind (.pure (by simp)) hmade)

theorem attributes :
    Reads good (attributes l) fun found => ∀ a ∈ found, a.ReadFrom good reading := by
  have hlists : ∀ limit, Reads good (attributes.lists l limit)
      fun found => ∀ a ∈ found, a.ReadFrom good reading := by
    intro limit
    induction limit with
    | zero => exact .pure (by simp)
    | succ limit ih =>
      refine (accept _).bind fun _ _ => ite ?_ (.pure (by simp))
      refine (commaSeparated (attributeItem hexpression)).bind fun found hfound => ?_
      refine (punctuation _).bind fun _ _ => ih.bind fun more hmore => .pure fun a ha => ?_
      exact (List.mem_append.1 ha).elim (hfound a) (hmore a)
  exact get.bind fun c _ => hlists c.ahead.length

end

section

variable (hexpression : Reads good l.expression reading)
  (hblock : Reads good (block below) executing)

include hexpression hblock

theorem member : Reads good (member l below) fun m =>
    (∀ f, m.field? = some f → f.ReadFrom good reading) ∧
      ∀ decl, m.method? = some decl → decl.ReadFrom good reading executing := by
  refine get.bind fun _ _ => (attributes hexpression).bind fun attrs hattrs =>
    get.bind fun c _ => ?_
  split
  · dsimp only
    split
    · exact bind (P := fun _ => False) (.fail _ _) fun _ hnone => hnone.elim
    refine advance.bind fun _ _ => identifier.bind fun name hname =>
      (assigned hexpression _).bind fun value hvalue => (spanFrom _).bind fun _ _ => .pure ⟨?_, ?_⟩
    · rintro f hf
      obtain rfl := Option.some.inj hf
      exact ⟨hname, hvalue⟩
    · rintro decl hdecl
      cases hdecl
  · refine advance.bind fun _ _ => identifier.bind fun name hname => parameters.bind fun _ _ =>
      hblock.bind fun body hbody => (spanFrom _).bind fun _ _ => .pure ⟨?_, ?_⟩
    · rintro f hf
      cases hf
    · rintro decl hdecl
      obtain rfl := Option.some.inj hdecl
      exact ⟨hattrs, hname, hbody⟩
  · exact .unexpected _

theorem classDecl : Reads good (classDecl l below) (·.ReadFrom good reading executing) := by
  refine get.bind fun _ _ => (attributes hexpression).bind fun attrs hattrs =>
    (keyword _).bind fun _ _ => identifier.bind fun name hname => (punctuation _).bind fun _ _ => ?_
  refine (recovering (I := fun read : List Member => ∀ m ∈ read,
    (∀ f, m.field? = some f → f.ReadFrom good reading) ∧
      ∀ decl, m.method? = some decl → decl.ReadFrom good reading executing) ?_ (by simp)).bind
        fun read hread => (punctuation _).bind fun _ _ => (spanFrom _).bind fun _ _ =>
          .pure ⟨hattrs, hname, ?_, ?_⟩
  · exact fun read hread => (member hexpression hblock).bind fun m hm =>
      .pure (List.forall_mem_cons.2 ⟨hm, hread⟩)
  · intro f hf
    obtain ⟨m, hm, hfield⟩ := List.mem_filterMap.1 hf
    exact (hread m (List.mem_reverse.1 hm)).1 f hfield
  · intro decl hdecl
    obtain ⟨m, hm, hmethod⟩ := List.mem_filterMap.1 hdecl
    exact (hread m (List.mem_reverse.1 hm)).2 decl hmethod

theorem declaration {p : Program} (hp : p.ReadFrom good reading executing) :
    Reads good (declaration l below p) (·.ReadFrom good reading executing) := by
  refine get.bind fun c _ => ?_
  split
  · refine (directive _).bind fun space hspace => ?_
    split
    · exact .fail _ _
    · refine .pure ⟨fun declared hdeclared => ?_, hp.classes⟩
      obtain rfl := Option.some.inj hdeclared
      exact hspace
  · exact (directive _).bind fun _ _ => .pure ⟨hp.space, hp.classes⟩
  · refine (classDecl hexpression hblock).bind fun decl hdecl => .pure ⟨hp.space, fun c hc => ?_⟩
    rcases List.mem_append.1 hc with hc | hc
    · exact hp.classes c hc
    · rwa [List.mem_singleton.1 hc]
  · refine (classDecl hexpression hblock).bind fun decl hdecl => .pure ⟨hp.space, fun c hc => ?_⟩
    rcases List.mem_append.1 hc with hc | hc
    · exact hp.classes c hc
    · rwa [List.mem_singleton.1 hc]
  · exact .unexpected _

end

end Production.Reads

/-- A program that was accepted is made of what its productions read. -/
theorem Program.readFrom_of_ofTokens {good : Token → Prop} {reading : Expr → Prop}
    {executing : List Stmt → Prop} {tokens : List Token} {program : Program}
    (hexpression : Production.Reads good Level.outermost.expression reading)
    (hblock : Production.Reads good (block (some (Level.withRoom (maxNesting - 1)))) executing)
    (htokens : ∀ t ∈ tokens, good t) (h : Program.ofTokens tokens = .ok program) :
    program.ReadFrom good reading executing := by
  have hstart : (Cursor.start tokens).Holds good := htokens
  have hempty : Program.empty.ReadFrom good reading executing := by
    constructor
    · intro space hspace
      cases hspace
    · intro c hc
      cases hc
  unfold ofTokens at h
  simp only at h
  split at h
  · rw [← Except.ok.inj h]
    refine (Production.Reads.recoveringUpTo ?_ tokens.length hempty hstart).1
    intro p hp
    exact Production.Reads.declaration hexpression hblock hp
  · cases h

end TestBench.Source
