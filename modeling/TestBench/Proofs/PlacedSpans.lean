import TestBench.Proofs.GrammarInvariants
import TestBench.Proofs.LexedText

/-!
Where trees and syntax faults are. Every span in a tree, and every span of a fault,
is that of a token or is put together from such spans, so it is in the text that
the tokens were read from, however reading went on after a fault.
-/
namespace TestBench

namespace Span

/-- All of the spans are in the text. -/
def AllWithin (source : List Char) (spans : List Span) : Prop := ∀ s ∈ spans, s.Within source

variable {source : List Char} {s : Span} {spans more : List Span}

theorem allWithin_nil (source : List Char) : AllWithin source [] := fun _ hs => nomatch hs

theorem allWithin_cons :
    AllWithin source (s :: spans) ↔ s.Within source ∧ AllWithin source spans :=
  List.forall_mem_cons

theorem allWithin_append :
    AllWithin source (spans ++ more) ↔ AllWithin source spans ∧ AllWithin source more :=
  List.forall_mem_append

theorem allWithin_flatMap {α : Type} {f : α → List Span} {xs : List α} :
    AllWithin source (xs.flatMap f) ↔ ∀ x ∈ xs, AllWithin source (f x) := by
  simp only [AllWithin, List.mem_flatMap]
  exact ⟨fun h x hx s hs => h s ⟨x, hx, hs⟩, fun h s ⟨x, hx, hs⟩ => h x hx s hs⟩

end Span

namespace Source

mutual

/-- The spans of an expression, of its parts and of the names in its calls. -/
def Expr.spans : Expr → List Span
  | .constant span _ | .name span _ => [span]
  | .unary span _ operand => span :: operand.spans
  | .binary span _ left right => span :: (left.spans ++ right.spans)
  | .call span callee arguments => span :: callee.span :: Expr.spansOfAll arguments
  | .paren span inner => span :: inner.spans

def Expr.spansOfAll : List Expr → List Span
  | [] => []
  | e :: rest => e.spans ++ Expr.spansOfAll rest

end

mutual

/-- The spans of a statement and of its parts. -/
def Stmt.spans : Stmt → List Span
  | .bind span _ value | .assign span _ value | .expr span value => span :: value.spans
  | .return span value => span :: (value.map Expr.spans).getD []
  | .ifThen span condition body | .while span condition body =>
    span :: (condition.spans ++ Stmt.spansOfAll body)
  | .ifElse span condition body otherwise =>
    span :: (condition.spans ++ (Stmt.spansOfAll body ++ Stmt.spansOfAll otherwise))

def Stmt.spansOfAll : List Stmt → List Span
  | [] => []
  | s :: rest => s.spans ++ Stmt.spansOfAll rest

end

def Attribute.spans (a : Attribute) : List Span := a.span :: Expr.spansOfAll a.arguments

def Field.spans (f : Field) : List Span := f.span :: f.value.spans

def Method.spans (m : Method) : List Span :=
  m.span :: m.name.span :: (m.attributes.flatMap (·.spans) ++
    (m.parameters.map (·.span) ++ Stmt.spansOfAll m.body))

def ClassDecl.spans (c : ClassDecl) : List Span :=
  c.span :: c.name.span :: (c.attributes.flatMap (·.spans) ++
    (c.fields.flatMap (·.spans) ++ c.methods.flatMap (·.spans)))

def Program.spans (p : Program) : List Span :=
  p.space.toList.map (·.span) ++ (p.uses.map (·.span) ++ p.classes.flatMap (·.spans))

theorem Expr.spansOfAll_eq (es : List Expr) : Expr.spansOfAll es = es.flatMap (·.spans) := by
  induction es with
  | nil => rfl
  | cons e rest ih => rw [Expr.spansOfAll, ih, List.flatMap_cons]

theorem Stmt.spansOfAll_eq (body : List Stmt) :
    Stmt.spansOfAll body = body.flatMap (·.spans) := by
  induction body with
  | nil => rfl
  | cons s rest ih => rw [Stmt.spansOfAll, ih, List.flatMap_cons]

theorem Expr.span_mem (e : Expr) : e.span ∈ e.spans := by
  cases e <;> exact List.mem_cons_self

/-- All spans that the cursor has are in the text. -/
structure Cursor.Placed (source : List Char) (c : Cursor) : Prop where
  ahead : ∀ t ∈ c.ahead, t.span.Within source
  last : c.last.Within source
  faults : ∀ f ∈ c.faults, f.span.Within source

namespace Cursor

variable {source : List Char} {c : Cursor}

theorem Placed.peek (h : c.Placed source) : c.peek.span.Within source := by
  unfold Cursor.peek
  cases hahead : c.ahead with
  | nil => exact Span.within_empty h.last.stop
  | cons t rest => exact h.ahead t (hahead ▸ List.mem_cons_self)

theorem Placed.advance (h : c.Placed source) : c.advance.Placed source := by
  unfold Cursor.advance
  split
  · exact h
  · next t rest hahead =>
    split
    · exact h
    · exact ⟨fun u hu => h.ahead u (hahead ▸ List.mem_cons_of_mem t hu),
        h.ahead t (hahead ▸ List.mem_cons_self), h.faults⟩

theorem synchronizeFrom_within {last : Span} {tokens : List Token} (hlast : last.Within source)
    (htokens : ∀ t ∈ tokens, t.span.Within source) :
    (∀ t ∈ (synchronizeFrom last tokens).1, t.span.Within source) ∧
      (synchronizeFrom last tokens).2.Within source := by
  induction tokens generalizing last with
  | nil => exact ⟨htokens, hlast⟩
  | cons t rest ih =>
    obtain ⟨ht, hrest⟩ := List.forall_mem_cons.1 htokens
    rw [synchronizeFrom]
    split
    · exact ⟨hrest, ht⟩
    split
    · exact ⟨htokens, hlast⟩
    · exact ih ht hrest

theorem Placed.recover {fault : Spanned SyntaxFault} (h : c.Placed source)
    (hfault : fault.span.Within source) (size : Nat) : (c.recover size fault).Placed source := by
  have hnext : ((c.report fault).synchronize).Placed source := by
    obtain ⟨hahead, hlast⟩ := synchronizeFrom_within h.last h.ahead
    refine ⟨hahead, hlast, fun f hf => ?_⟩
    rcases List.mem_append.1 hf with hf | hf
    · exact h.faults f hf
    · rwa [List.mem_singleton.1 hf]
  simp only [Cursor.recover]
  split
  · exact hnext.advance
  · exact hnext

/-- That all spans are in the text is an invariant of reading. -/
theorem placed_invariant (source : List Char) :
    Invariant (Placed source) fun fault => fault.span.Within source where
  advance := Placed.advance
  atDepth hc _ := ⟨hc.ahead, hc.last, hc.faults⟩
  recover hc hfault size := hc.recover hfault size
  atPeek hc _ := hc.peek

end Cursor

open TestBench.Span (AllWithin)

namespace Production

/-- If all that the cursor has is in the text, this stays so, and what is read and the fault that
reading ends with are in the text too. -/
abbrev Places {α : Type} (source : List Char) (p : Production α) (P : α → Prop) : Prop :=
  Keeps (Cursor.Placed source) (fun fault => fault.span.Within source) p P

namespace Places

variable {source : List Char}

theorem advance : Places source (modify (·.advance) : Production PUnit) fun _ => True :=
  Keeps.advance (Cursor.placed_invariant source)

theorem unexpected {α : Type} {P : α → Prop} (what : Expectation) :
    Places source (unexpected what) P :=
  Keeps.unexpected (Cursor.placed_invariant source) what

theorem accept (kind : TokenKind) : Places source (accept kind) fun _ => True :=
  Keeps.accept (Cursor.placed_invariant source) kind

theorem keyword (word : Keyword) : Places source (keyword word) fun _ => True :=
  Keeps.keyword (Cursor.placed_invariant source) word

theorem punctuation (sign : Punctuation) : Places source (punctuation sign) fun _ => True :=
  Keeps.punctuation (Cursor.placed_invariant source) sign

theorem spanFrom {first : Span} (h : first.Within source) :
    Places source (spanFrom first) (Span.Within source) :=
  Keeps.get.bind fun _ hc => .pure (h.merge hc.last)

theorem identifier : Places source identifier (·.span.Within source) := by
  refine Keeps.get.bind fun c hc => ?_
  dsimp only
  split
  · exact advance.bind fun _ _ => .pure hc.peek
  · exact unexpected _

theorem dotted (limit : Nat) : Places source (qualifiedName.dotted limit) fun _ => True := by
  induction limit with
  | zero => exact .pure trivial
  | succ limit ih =>
    exact (accept _).bind fun _ _ => .ite
      (identifier.bind fun _ _ => ih.bind fun _ _ => .pure trivial) (.pure trivial)

theorem qualifiedName : Places source qualifiedName (·.span.Within source) :=
  identifier.bind fun _ hhead => Keeps.get.bind fun _ _ => (dotted _).bind fun _ _ =>
    (spanFrom hhead).bind fun _ hspan => .pure hspan

theorem allWithin_spansOfAll {es : List Expr} (h : ∀ e ∈ es, AllWithin source e.spans) :
    AllWithin source (Expr.spansOfAll es) := by
  rwa [Expr.spansOfAll_eq, Span.allWithin_flatMap]

theorem arguments {expression : Production Expr}
    (h : Places source expression fun e => AllWithin source e.spans) :
    Places source (arguments expression) fun args => AllWithin source (Expr.spansOfAll args) :=
  (h.untilParen (Cursor.placed_invariant source)).mono fun _ => allWithin_spansOfAll

theorem assigned {expression : Production Expr} {P : Expr → Prop} (h : Places source expression P)
    (what : Expectation) : Places source (assigned expression what) P :=
  (Keeps.expect (Cursor.placed_invariant source) _ _).bind fun _ _ =>
    h.bind fun _ hvalue => (punctuation _).bind fun _ _ => .pure hvalue

theorem parameters :
    Places source parameters fun params => ∀ s ∈ params, s.span.Within source :=
  (punctuation _).bind fun _ _ => identifier.untilParen (Cursor.placed_invariant source)

theorem directive (word : Keyword) : Places source (directive word) (·.span.Within source) :=
  Keeps.get.bind fun _ hc => (keyword _).bind fun _ _ => qualifiedName.bind fun _ _ =>
    (punctuation _).bind fun _ _ => (spanFrom hc.peek).bind fun _ hspan => .pure hspan

end Places

end Production

open Production (Places Keeps)

/-- Everything that the productions of a level read is in the text. -/
structure Level.Placed (source : List Char) (l : Level) : Prop where
  operand : Places source l.operand fun e => AllWithin source e.spans
  chain : ∀ least left, AllWithin source left.spans →
    Places source (l.chain least left) fun e => AllWithin source e.spans
  statement : Places source l.statement fun s => AllWithin source s.spans
  conditional : Places source l.conditional fun s => AllWithin source s.spans

section Levels

variable {source : List Char} {l : Level} {below : Option Level}

theorem Level.Placed.binary (h : l.Placed source) (least : Nat) :
    Places source (l.binary least) fun e => AllWithin source e.spans :=
  (h.operand.bind (h.chain least)).keepingDepth (Cursor.placed_invariant source)

variable (hbelow : ∀ l ∈ below, l.Placed source)

include hbelow

theorem primary_placed : Places source (primary below) fun e => AllWithin source e.spans := by
  refine Keeps.get.bind fun c hc => ?_
  have hleaf : ∀ value, Places source
      (do modify (·.advance); return Expr.constant c.peek.span value) fun e =>
        AllWithin source e.spans := fun value =>
    Places.advance.bind fun _ _ =>
      .pure (Span.allWithin_cons.2 ⟨hc.peek, Span.allWithin_nil source⟩)
  dsimp only
  split
  · exact hleaf _
  · exact hleaf _
  · exact hleaf _
  · exact hleaf _
  · exact Places.advance.bind fun _ _ =>
      (Keeps.further (Cursor.placed_invariant source) fun l hl => (hbelow l hl).binary 1).bind
        fun inner hinner => (Places.punctuation _).bind fun _ _ =>
          (Places.spanFrom hc.peek).bind fun _ hspan =>
            .pure (Span.allWithin_cons.2 ⟨hspan, hinner⟩)
  · refine Places.qualifiedName.bind fun name hname => (Places.accept _).bind fun _ _ => .ite ?_ ?_
    · refine (Keeps.further (Cursor.placed_invariant source) fun l hl =>
        Places.arguments ((hbelow l hl).binary 1)).bind fun args hargs =>
          (Places.spanFrom hname).bind fun _ hspan => .pure ?_
      exact Span.allWithin_cons.2 ⟨hspan, Span.allWithin_cons.2 ⟨hname, hargs⟩⟩
    · exact .ite (.pure (Span.allWithin_cons.2 ⟨hname, Span.allWithin_nil source⟩)) (.fail hname)
  · exact Places.unexpected _

theorem operand_placed :
    Places source (operandOver below) fun e => AllWithin source e.spans := by
  refine Keeps.get.bind fun c hc => ?_
  dsimp only
  split
  · split
    · refine Places.advance.bind fun _ _ =>
        (Keeps.further (Cursor.placed_invariant source) fun l hl => (hbelow l hl).operand).bind
          fun inner hinner => .pure (Span.allWithin_cons.2 ⟨?_, hinner⟩)
      exact hc.peek.merge (hinner _ inner.span_mem)
    · exact primary_placed hbelow
  · exact primary_placed hbelow

theorem chain_placed (least : Nat) (left : Expr) (hleft : AllWithin source left.spans) :
    Places source (chainOver below least left) fun e => AllWithin source e.spans := by
  refine Keeps.bind (P := fun _ => True) ?_ fun found _ => ?_
  · exact Keeps.get.bind fun c _ => by split <;> exact .pure trivial
  split
  · exact .pure hleft
  · next op =>
    cases below with
    | none => exact Keeps.get.bind fun c hc => .fail hc.peek
    | some l =>
      have hl := hbelow l rfl
      refine (Keeps.enter (Cursor.placed_invariant source)).bind fun _ _ =>
        Places.advance.bind fun _ _ => (hl.binary _).bind fun right hright =>
          hl.chain least _ (Span.allWithin_cons.2 ⟨?_, Span.allWithin_append.2 ⟨hleft, hright⟩⟩)
      exact (hleft _ left.span_mem).merge (hright _ right.span_mem)

theorem block_placed :
    Places source (block below) fun body => AllWithin source (Stmt.spansOfAll body) := by
  refine Keeps.further (Cursor.placed_invariant source) fun l hl =>
    (Places.punctuation _).bind fun _ _ => ?_
  refine (Keeps.recovering (Cursor.placed_invariant source)
    (I := fun read : List Stmt => ∀ s ∈ read, AllWithin source s.spans) ?_ (by simp)).bind
      fun read hread => (Places.punctuation _).bind fun _ _ => .pure ?_
  · exact fun read hread => (hbelow l hl).statement.bind fun s hs =>
      .pure (List.forall_mem_cons.2 ⟨hs, hread⟩)
  · rw [Stmt.spansOfAll_eq, Span.allWithin_flatMap]
    exact fun s hs => hread s (List.mem_reverse.1 hs)

variable {expression : Production Expr}
  (hexpression : Places source expression fun e => AllWithin source e.spans)

include hexpression

theorem conditional_placed :
    Places source (conditionalOver below expression) fun s => AllWithin source s.spans := by
  refine Keeps.get.bind fun c hc => (Places.keyword _).bind fun _ _ =>
    hexpression.bind fun condition hcondition => (block_placed hbelow).bind fun body hbody =>
      (Places.accept _).bind fun _ _ => .ite ?_ ?_
  · have hmade : ∀ otherwise : List Stmt, AllWithin source (Stmt.spansOfAll otherwise) →
        Places source (do
          return Stmt.ifElse (← Production.spanFrom c.peek.span) condition body otherwise)
          fun s : Stmt => AllWithin source s.spans :=
      fun otherwise hotherwise => (Places.spanFrom hc.peek).bind fun _ hspan =>
        .pure (Span.allWithin_cons.2 ⟨hspan, Span.allWithin_append.2
          ⟨hcondition, Span.allWithin_append.2 ⟨hbody, hotherwise⟩⟩⟩)
    refine (Keeps.isNext _).bind fun _ _ => .ite ?_ ((block_placed hbelow).bind hmade)
    refine (Keeps.further (Cursor.placed_invariant source) fun l hl =>
      (hbelow l hl).conditional).bind fun nested hnested => Keeps.bind (.pure ?_) hmade
    simpa only [Stmt.spansOfAll, List.append_nil] using hnested
  · exact (Places.spanFrom hc.peek).bind fun _ hspan =>
      .pure (Span.allWithin_cons.2 ⟨hspan, Span.allWithin_append.2 ⟨hcondition, hbody⟩⟩)

theorem statement_placed :
    Places source (statementOver below expression) fun s => AllWithin source s.spans := by
  refine Keeps.get.bind fun c hc => ?_
  dsimp only
  split
  · exact Places.advance.bind fun _ _ => Places.identifier.bind fun _ _ =>
      (Places.assigned hexpression _).bind fun value hvalue =>
        (Places.spanFrom hc.peek).bind fun _ hspan =>
          .pure (Span.allWithin_cons.2 ⟨hspan, hvalue⟩)
  · have hmade : ∀ value : Option Expr, AllWithin source ((value.map Expr.spans).getD []) →
        Places source (do
          Production.punctuation .semicolon
          return Stmt.return (← Production.spanFrom c.peek.span) value)
          fun s : Stmt => AllWithin source s.spans :=
      fun value hvalue => (Places.punctuation _).bind fun _ _ =>
        (Places.spanFrom hc.peek).bind fun _ hspan =>
          .pure (Span.allWithin_cons.2 ⟨hspan, hvalue⟩)
    refine Places.advance.bind fun _ _ => (Keeps.isNext _).bind fun _ _ => .ite ?_ ?_
    · exact Keeps.bind (.pure (Span.allWithin_nil source)) hmade
    · exact (hexpression.map (f := some) fun _ he => he).bind hmade
  · exact conditional_placed hbelow hexpression
  · exact Places.advance.bind fun _ _ => hexpression.bind fun condition hcondition =>
      (block_placed hbelow).bind fun body hbody => (Places.spanFrom hc.peek).bind fun _ hspan =>
        .pure (Span.allWithin_cons.2 ⟨hspan, Span.allWithin_append.2 ⟨hcondition, hbody⟩⟩)
  · split
    · exact Places.advance.bind fun _ _ => (Places.assigned hexpression _).bind fun value hvalue =>
        (Places.spanFrom hc.peek).bind fun _ hspan =>
          .pure (Span.allWithin_cons.2 ⟨hspan, hvalue⟩)
    · exact hexpression.bind fun value hvalue => (Places.punctuation _).bind fun _ _ =>
        (Places.spanFrom hc.peek).bind fun _ hspan =>
          .pure (Span.allWithin_cons.2 ⟨hspan, hvalue⟩)

omit hexpression in
theorem over_placed : (Level.over below).Placed source := by
  have hexpression : Places source (Production.keepingDepth do
      chainOver below 1 (← operandOver below)) fun e => AllWithin source e.spans :=
    ((operand_placed hbelow).bind (chain_placed hbelow 1)).keepingDepth
      (Cursor.placed_invariant source)
  exact ⟨operand_placed hbelow, chain_placed hbelow, statement_placed hbelow hexpression,
    conditional_placed hbelow hexpression⟩

omit hbelow hexpression in
theorem withRoom_placed (source : List Char) (n : Nat) : (Level.withRoom n).Placed source := by
  induction n with
  | zero => exact over_placed fun _ hl => nomatch hl
  | succ n ih =>
    refine over_placed fun l hl => ?_
    rwa [← Option.some.inj hl]

end Levels

section Declarations

variable {source : List Char} {l : Level} {below : Option Level}

section

variable (hl : l.Placed source)

include hl

theorem attributeItem_placed :
    Places source (attributeItem l) fun a => AllWithin source a.spans := by
  refine Places.qualifiedName.bind fun name hname => (Places.accept _).bind fun _ _ => ?_
  have hmade : ∀ args : List Expr, AllWithin source (Expr.spansOfAll args) →
      Places source (do return ⟨← Production.spanFrom name.span, name.node, args⟩)
        fun a : Attribute => AllWithin source a.spans :=
    fun args hargs => (Places.spanFrom hname).bind fun _ hspan =>
      .pure (Span.allWithin_cons.2 ⟨hspan, hargs⟩)
  exact .ite ((Places.arguments (hl.binary 1)).bind hmade)
    (Keeps.bind (.pure (Span.allWithin_nil source)) hmade)

theorem attributes_placed :
    Places source (attributes l) fun found => ∀ a ∈ found, AllWithin source a.spans := by
  have hlists : ∀ limit, Places source (attributes.lists l limit)
      fun found => ∀ a ∈ found, AllWithin source a.spans := by
    intro limit
    induction limit with
    | zero => exact .pure (by simp)
    | succ limit ih =>
      refine (Places.accept _).bind fun _ _ => .ite ?_ (.pure (by simp))
      refine ((attributeItem_placed hl).commaSeparated (Cursor.placed_invariant source)).bind
        fun found hfound => (Places.punctuation _).bind fun _ _ => ih.bind fun more hmore => ?_
      exact .pure (List.forall_mem_append.2 ⟨hfound, hmore⟩)
  exact Keeps.get.bind fun c _ => hlists c.ahead.length

variable (hbelow : ∀ l ∈ below, l.Placed source)

include hbelow

theorem member_placed : Places source (member l below) fun m =>
    (∀ f, m.field? = some f → AllWithin source f.spans) ∧
      ∀ decl, m.method? = some decl → AllWithin source decl.spans := by
  refine Keeps.get.bind fun c hc => (attributes_placed hl).bind fun attrs hattrs =>
    Keeps.get.bind fun d _ => ?_
  split
  · dsimp only
    split
    · next misplaced hfirst =>
      have hspan : misplaced.span.Within source :=
        (Span.allWithin_cons.1 (hattrs _ (List.mem_of_mem_head? hfirst))).1
      exact Keeps.bind (P := fun _ => False) (.fail hspan) fun _ hnone => hnone.elim
    refine Places.advance.bind fun _ _ => Places.identifier.bind fun name hname =>
      (Places.assigned (hl.binary 1) _).bind fun value hvalue =>
        (Places.spanFrom hc.peek).bind fun _ hspan => .pure ⟨?_, ?_⟩
    · rintro f hf
      obtain rfl := Option.some.inj hf
      exact Span.allWithin_cons.2 ⟨hspan, hvalue⟩
    · rintro decl hdecl
      cases hdecl
  · refine Places.advance.bind fun _ _ => Places.identifier.bind fun name hname =>
      Places.parameters.bind fun params hparams => (block_placed hbelow).bind fun body hbody =>
        (Places.spanFrom hc.peek).bind fun _ hspan => .pure ⟨?_, ?_⟩
    · rintro f hf
      cases hf
    · rintro decl hdecl
      obtain rfl := Option.some.inj hdecl
      exact Span.allWithin_cons.2 ⟨hspan, Span.allWithin_cons.2 ⟨hname, Span.allWithin_append.2
        ⟨Span.allWithin_flatMap.2 hattrs, Span.allWithin_append.2
          ⟨List.forall_mem_map.2 hparams, hbody⟩⟩⟩⟩
  · exact Places.unexpected _

theorem classDecl_placed :
    Places source (classDecl l below) fun decl => AllWithin source decl.spans := by
  refine Keeps.get.bind fun c hc => (attributes_placed hl).bind fun attrs hattrs =>
    (Places.keyword _).bind fun _ _ => Places.identifier.bind fun name hname =>
      (Places.punctuation _).bind fun _ _ => ?_
  refine (Keeps.recovering (Cursor.placed_invariant source)
    (I := fun read : List Member => ∀ m ∈ read,
      (∀ f, m.field? = some f → AllWithin source f.spans) ∧
        ∀ decl, m.method? = some decl → AllWithin source decl.spans) ?_ (by simp)).bind
      fun read hread => (Places.punctuation _).bind fun _ _ =>
        (Places.spanFrom hc.peek).bind fun _ hspan => .pure ?_
  · exact fun read hread => (member_placed hl hbelow).bind fun m hm =>
      .pure (List.forall_mem_cons.2 ⟨hm, hread⟩)
  · refine Span.allWithin_cons.2 ⟨hspan, Span.allWithin_cons.2 ⟨hname, Span.allWithin_append.2
      ⟨Span.allWithin_flatMap.2 hattrs, Span.allWithin_append.2
        ⟨Span.allWithin_flatMap.2 fun f hf => ?_, Span.allWithin_flatMap.2 fun m hm => ?_⟩⟩⟩⟩
    · obtain ⟨m, hm, hfield⟩ := List.mem_filterMap.1 hf
      exact (hread m (List.mem_reverse.1 hm)).1 f hfield
    · obtain ⟨decl, hdecl, hmethod⟩ := List.mem_filterMap.1 hm
      exact (hread decl (List.mem_reverse.1 hdecl)).2 m hmethod

theorem declaration_placed {p : Program} (hp : AllWithin source p.spans) :
    Places source (declaration l below p) fun p => AllWithin source p.spans := by
  obtain ⟨hspace, hrest⟩ := Span.allWithin_append.1 hp
  obtain ⟨huses, hclasses⟩ := Span.allWithin_append.1 hrest
  have hclass : Places source
      (do return { p with classes := p.classes ++ [← classDecl l below] })
      fun p => AllWithin source p.spans := by
    refine (classDecl_placed hl hbelow).bind fun decl hdecl => .pure ?_
    refine Span.allWithin_append.2 ⟨hspace, Span.allWithin_append.2 ⟨huses, ?_⟩⟩
    rw [List.flatMap_append, Span.allWithin_append, List.flatMap_singleton]
    exact ⟨hclasses, hdecl⟩
  refine Keeps.get.bind fun c _ => ?_
  split
  · refine (Places.directive _).bind fun space hnamed => ?_
    split
    · exact .fail hnamed
    · exact .pure (Span.allWithin_append.2
        ⟨Span.allWithin_cons.2 ⟨hnamed, Span.allWithin_nil source⟩, hrest⟩)
  · refine (Places.directive _).bind fun used hused => .pure ?_
    refine Span.allWithin_append.2 ⟨hspace, Span.allWithin_append.2 ⟨?_, hclasses⟩⟩
    rw [List.map_append, Span.allWithin_append]
    exact ⟨huses, Span.allWithin_cons.2 ⟨hused, Span.allWithin_nil source⟩⟩
  · exact hclass
  · exact hclass
  · exact Places.unexpected _

end

end Declarations

namespace Program

/-- What is read of tokens from a text is in the text, be it a program or the faults in it. -/
theorem ofTokens_placed {source : List Char} {tokens : List Token}
    (htokens : ∀ t ∈ tokens, t.span.Within source) :
    (∀ program, ofTokens tokens = .ok program → AllWithin source program.spans) ∧
      ∀ faults, ofTokens tokens = .error faults → ∀ f ∈ faults, f.span.Within source := by
  have hlast : (Cursor.start tokens).last.Within source := by
    cases tokens with
    | nil => exact Span.within_empty (isBoundary_zero source)
    | cons t rest => exact htokens t List.mem_cons_self
  have hstart : (Cursor.start tokens).Placed source :=
    ⟨htokens, hlast, fun f hf => (List.not_mem_nil hf).elim⟩
  have hbelow : ∀ l ∈ some (Level.withRoom (maxNesting - 1)), l.Placed source := by
    intro l hl
    rw [← Option.some.inj hl]
    exact withRoom_placed source _
  have hitem : ∀ p : Program, AllWithin source p.spans →
      Places source (declaration (Level.over (some (Level.withRoom (maxNesting - 1))))
        (some (Level.withRoom (maxNesting - 1))) p) fun p => AllWithin source p.spans :=
    fun p hp => declaration_placed (over_placed hbelow) hbelow hp
  have hempty : AllWithin source Program.empty.spans := Span.allWithin_nil source
  obtain ⟨hprogram, hcursor⟩ := Keeps.recoveringUpTo (Cursor.placed_invariant source) hitem
    tokens.length hempty hstart
  unfold ofTokens
  dsimp only
  split
  · refine ⟨fun program h => ?_, fun faults h => nomatch h⟩
    rwa [← Except.ok.inj h]
  · refine ⟨fun program h => (nomatch h), fun faults h => ?_⟩
    rw [← Except.error.inj h]
    exact hcursor.faults

end Program

end Source

end TestBench
