import TestBench.Proofs.LaidReadings

/-!
How what is read of expressions and statements is laid out. A chain of operators
takes its left operand from before, with the tokens on which that is laid out. A
conditional that stands after `else` is a statement of its own, whose span begins at
its `if`.
-/
namespace TestBench.Source

open Token (InOrder)
open SyntaxTree (AllLaidOut inBraces)
open Production (LaysAt)

/-- What the productions of a level read is laid out on the tokens that they read. A chain goes on
from a left operand on the tokens before. -/
structure Level.Lays (l : Level) : Prop where
  operand : ∀ c, LaysAt c l.operand fun e ts => e.tree.LaidOut ts
  chain : ∀ least left c, LaysAt c (l.chain least left) fun e ts =>
    ∀ before, left.tree.LaidOut before → InOrder (before ++ ts) → e.tree.LaidOut (before ++ ts)
  statement : ∀ c, LaysAt c l.statement fun s ts => ∃ tree, s.HasTree tree ∧ tree.LaidOut ts
  conditional : ∀ c, LaysAt c l.conditional fun s ts =>
    (∃ tree, s.HasTree tree ∧ tree.LaidOut ts) ∧ s.isConditional = true

section Levels

variable {l : Level} {below : Option Level} {c : Cursor}

theorem Level.Lays.binary (h : l.Lays) (least : Nat) (c : Cursor) :
    LaysAt c (l.binary least) fun e ts => e.tree.LaidOut ts := by
  refine .keepingDepth fun d => .ordered ((h.operand d).bind fun left m =>
    (h.chain least left m).mono ?_)
  intro e later he first _ hleft hin
  exact he first hleft hin

variable (hbelow : ∀ l ∈ below, l.Lays)

include hbelow

theorem lays_further {α : Type} {p : Level → Production α} {S : α → List Token → Prop}
    (h : ∀ l : Level, l.Lays → ∀ d, LaysAt d (p l) S) : LaysAt c (further below p) S := by
  cases below with
  | none => exact .failing rfl
  | some l => exact .inside (h l (hbelow l rfl))

theorem lays_primary : LaysAt c (primary below) fun e ts => e.tree.LaidOut ts := by
  have hleaf : ∀ value : Constant, c.kind = value.kind → value.kind ≠ .endOfFile →
      LaysAt c (do modify (·.advance); return Expr.constant c.peek.span value) fun e ts =>
        e.tree.LaidOut ts := by
    intro value hkind hend
    refine (LaysAt.advance_of hkind hend).bind fun _ _ => .pure ?_
    intro first hpasses hfirst
    obtain ⟨t, rfl, ht⟩ := hfirst
    rw [hpasses.peek]
    exact ⟨.token t, SyntaxTree.allLaidOut_singleton.2 ⟨t, rfl, ht⟩⟩
  refine LaysAt.get_bind ?_
  dsimp only
  split
  · next n hkind => exact hleaf (.integer n) hkind nofun
  · next s hkind => exact hleaf (.text s) hkind nofun
  · next hkind => exact hleaf (.boolean true) hkind nofun
  · next hkind => exact hleaf (.boolean false) hkind nofun
  · next hkind =>
    refine .ordered ((LaysAt.advance_of hkind nofun).bind fun _ d =>
      (lays_further hbelow fun l hl d => hl.binary 1 d).bind fun inner _ =>
        (LaysAt.punctuation _).bind fun _ m => (LaysAt.spanned (Expr.paren · inner) _).mono ?_)
    intro e none hmade close hclose hparen ts hts hinner first hfirst hopen hin
    obtain ⟨rfl, rfl⟩ := hmade
    exact (hfirst.trans (hts.trans (hclose.trans (.refl m)))).node hin (List.cons_ne_nil _ _)
      (.cons hopen (.cons hinner (.cons hparen .nil)))
  · next hkind =>
    refine .ordered (LaysAt.qualifiedName.bind fun name d =>
      (LaysAt.accept (by simp)).bind fun found m => ?_)
    cases found with
    | true =>
      refine (lays_further hbelow fun l hl d => .arguments (hl.binary 1)).bind fun args m' =>
        (LaysAt.spanned (Expr.call · name args) _).mono ?_
      intro e none hmade ts hts hargs paren hparen hopen first hfirst hname hin
      obtain ⟨rfl, rfl⟩ := hmade
      exact ⟨(hfirst.trans (hparen.trans (hts.trans (.refl m')))).covers hin hname.1,
        .cons hname (.cons (hopen.1 rfl) (by rwa [List.append_nil]))⟩
    | false =>
      simp only [Bool.false_eq_true, if_false]
      split
      · next hsimple =>
        refine .pure ?_
        intro none _ hnone first _ hname hin
        obtain rfl := hnone.2 trivial
        have hmore : name.node.more = [] := List.isEmpty_iff.1 hsimple
        rw [calleeTree, QualifiedName.kinds, hmore] at hname
        rw [List.append_nil, List.append_nil]
        exact hname
      · exact .fail _ _
  · exact .unexpected _

theorem lays_operand : LaysAt c (operandOver below) fun e ts => e.tree.LaidOut ts := by
  refine LaysAt.get_bind ?_
  dsimp only
  split
  · next sign hkind =>
    split
    · next op hop =>
      refine .ordered ((LaysAt.advance_of hkind nofun).bind fun _ d =>
        (lays_further hbelow fun l hl d => hl.operand d).bind fun inner m => .pure ?_)
      intro ts _ hinner first hfirst hsign hin
      obtain ⟨t, rfl, -⟩ := id hsign
      have hspan := Expr.covers_of_laidOut hinner
      rw [List.append_nil] at hin ⊢
      have hcovers : (t.span.merge inner.span).Covers ([t] ++ ([] ++ ts)) :=
        Span.Covers.both (.token t) hspan hin
      rw [← UnaryOp.sign_of_ofSign? hop] at hsign
      rw [hfirst.peek]
      exact ⟨hcovers, .cons hsign (SyntaxTree.allLaidOut_singleton.2 hinner)⟩
    · exact lays_primary hbelow
  · exact lays_primary hbelow

omit hbelow in
theorem lays_nextOperator (least : Nat) : LaysAt c (nextOperator least) fun found ts =>
    ts = [] ∧ ∀ op ∈ found, c.kind = .operator op.sign := by
  refine LaysAt.get_bind ?_
  split
  · next sign hkind =>
    refine .pure ⟨rfl, fun op hop => ?_⟩
    obtain ⟨hop, -⟩ := Option.mem_filter_iff.1 hop
    rw [BinaryOp.sign_of_ofSign? hop, hkind]
  · exact .pure ⟨rfl, fun op hop => by cases hop⟩

theorem lays_chain (least : Nat) (left : Expr) :
    LaysAt c (chainOver below least left) fun e ts =>
      ∀ before, left.tree.LaidOut before → InOrder (before ++ ts) →
        e.tree.LaidOut (before ++ ts) := by
  refine (lays_nextOperator least).bind fun found d => ?_
  cases found with
  | none =>
    refine .pure ?_
    intro none _ hnone before hleft _
    rw [hnone.1, List.append_nil, List.append_nil]
    exact hleft
  | some op =>
    cases below with
    | none => exact LaysAt.get_bind (.fail _ _)
    | some l =>
      have hl := hbelow l rfl
      refine LaysAt.enter.bind fun _ m => LaysAt.advance.bind fun _ m' =>
        (hl.binary _ m').bind fun right m'' => (hl.chain least _ m'').mono ?_
      intro e later he ts _ hright sign _ hsign none hentered hnone none' hfound hop before hleft
        hin
      obtain ⟨rfl, hnext⟩ := hop
      obtain rfl : none = [] := hnone
      rw [hentered.kind_eq, hfound.kind_eq, hnext op rfl] at hsign
      rw [List.nil_append, List.nil_append, ← List.append_assoc sign, ← List.append_assoc] at hin ⊢
      have hnode : (Expr.binary (left.span.merge right.span) op left right).tree.LaidOut
          (before ++ (sign ++ ts)) :=
        ⟨(Expr.covers_of_laidOut hleft).both (Expr.covers_of_laidOut hright) hin.left,
          .cons hleft (.cons (hsign nofun) (SyntaxTree.allLaidOut_singleton.2 hright))⟩
      exact he _ hnode hin

theorem lays_block : LaysAt c (block below) fun body ts =>
    ∃ trees, Stmt.AllHaveTrees body trees ∧ AllLaidOut (inBraces trees) ts := by
  refine lays_further hbelow fun l hl d => (LaysAt.punctuation _).bind fun _ d => ?_
  refine (LaysAt.recovering hl.statement).bind fun read _ => (LaysAt.punctuation _).bind fun _ _ =>
    .pure ?_
  intro close _ hclose ts _ hread opening _ hopen
  obtain ⟨trees, htrees, hlaid⟩ := hread
  rw [List.append_nil]
  exact ⟨trees, Stmt.allHaveTrees_iff.2 htrees,
    .cons hopen (hlaid.append (SyntaxTree.allLaidOut_singleton.2 hclose))⟩

omit hbelow in
/-- A conditional with what stands after `else`: statements in braces or another conditional. -/
theorem ifElse_laidOut {d : Cursor} {condition : Expr} {body otherwise : List Stmt}
    {first inner ts sign later : List Token}
    (hpasses : c.Passes (first ++ (inner ++ (ts ++ (sign ++ later)))) d)
    (hin : InOrder (first ++ (inner ++ (ts ++ (sign ++ later)))))
    (hif : (SyntaxTree.token (.keyword .if)).LaidOut first)
    (hcondition : condition.tree.LaidOut inner)
    (hbody : ∃ trees, Stmt.AllHaveTrees body trees ∧ AllLaidOut (inBraces trees) ts)
    (helse : (SyntaxTree.token (.keyword .else)).LaidOut sign)
    (hother : ∃ other branch, Stmt.AllHaveTrees otherwise other ∧ (branch = inBraces other ∨
      branch = other ∧ ∃ s, otherwise = [s] ∧ s.isConditional = true) ∧ AllLaidOut branch later) :
    ∃ tree, (Stmt.ifElse (c.peek.span.merge d.last) condition body otherwise).HasTree tree ∧
      tree.LaidOut (first ++ (inner ++ (ts ++ (sign ++ later)))) := by
  obtain ⟨trees, htrees, hlaid⟩ := hbody
  obtain ⟨other, branch, hhave, hbranch, hbranchLaid⟩ := hother
  refine ⟨_, ⟨trees, other, branch, htrees, hhave, hbranch, rfl⟩,
    hpasses.node hin (List.cons_ne_nil _ _) ?_⟩
  exact .cons hif (.cons hcondition (hlaid.append (.cons helse hbranchLaid)))

section

variable {expression : Production Expr}
  (hexpression : ∀ d, LaysAt d expression fun e ts => e.tree.LaidOut ts)

include hexpression

theorem lays_conditional : LaysAt c (conditionalOver below expression) fun s ts =>
    (∃ tree, s.HasTree tree ∧ tree.LaidOut ts) ∧ s.isConditional = true := by
  refine LaysAt.get_bind (.ordered ((LaysAt.keyword _).bind fun _ _ =>
    (hexpression _).bind fun condition _ => (lays_block hbelow).bind fun body m =>
      (LaysAt.accept (by simp)).bind fun found m' => ?_))
  cases found with
  | false =>
    refine (LaysAt.spanned (Stmt.ifThen · condition body) _).mono ?_
    intro s none hmade none' hother hnone ts hts hbody inner hinner hcondition first hfirst hif hin
    obtain ⟨rfl, rfl⟩ := hmade
    obtain rfl := hnone.2 rfl
    obtain ⟨trees, htrees, hlaid⟩ := hbody
    have hpasses := hfirst.trans (hinner.trans (hts.trans hother))
    rw [List.append_nil] at hin ⊢
    refine ⟨⟨_, ⟨trees, htrees, rfl⟩, hpasses.node hin (List.cons_ne_nil _ _) ?_⟩, rfl⟩
    rw [List.append_nil]
    exact .cons hif (.cons hcondition hlaid)
  | true =>
    have hmade : ∀ (otherwise : List Stmt) d, LaysAt d (do
        return Stmt.ifElse (← Production.spanFrom c.peek.span) condition body otherwise)
        fun s ts => ts = [] ∧ s = Stmt.ifElse (c.peek.span.merge d.last) condition body otherwise :=
      fun otherwise d => .spanned (Stmt.ifElse · condition body otherwise) _
    refine (LaysAt.isNext _).bind fun found _ => .ite ?_ ?_
    · refine (lays_further hbelow fun l hl d => hl.conditional d).bind fun nested _ => ?_
      refine (LaysAt.given [nested]).bind fun otherwise m => (hmade otherwise m).mono ?_
      intro s none hmade none' hkept hgiven later hlater hnested none'' hfound hnext sign hsign
        helse ts hts hbody inner hinner hcondition first hfirst hif hin
      obtain ⟨rfl, rfl⟩ := hmade
      obtain ⟨rfl, rfl⟩ := hgiven
      obtain rfl := hnext.1
      obtain ⟨⟨branch, hhas, hbranch⟩, hnestedIf⟩ := hnested
      have hpasses := hfirst.trans (hinner.trans (hts.trans (hsign.trans (hfound.trans
        (hlater.trans hkept)))))
      simp only [List.append_nil, List.nil_append] at hin hpasses ⊢
      refine ⟨ifElse_laidOut hpasses hin hif hcondition hbody (helse.1 rfl) ⟨[branch], [branch],
        ⟨branch, [], hhas, rfl, rfl⟩, Or.inr ⟨rfl, nested, rfl, hnestedIf⟩, ?_⟩, rfl⟩
      exact SyntaxTree.allLaidOut_singleton.2 hbranch
    · refine (lays_block hbelow).bind fun otherwise m => (hmade otherwise m).mono ?_
      intro s none hmade later hlater hotherwise none' hfound hnext sign hsign helse
        ts hts hbody inner hinner hcondition first hfirst hif hin
      obtain ⟨rfl, rfl⟩ := hmade
      obtain rfl := hnext.1
      obtain ⟨other, hother, hbranch⟩ := hotherwise
      have hpasses := hfirst.trans (hinner.trans (hts.trans (hsign.trans (hfound.trans hlater))))
      simp only [List.append_nil, List.nil_append] at hin hpasses ⊢
      exact ⟨ifElse_laidOut hpasses hin hif hcondition hbody (helse.1 rfl)
        ⟨other, inBraces other, hother, Or.inl rfl, hbranch⟩, rfl⟩

omit hbelow in
/-- With or without a value, the statement goes up to its semicolon. -/
theorem lays_return (hkind : c.kind = .keyword .return) : LaysAt c (do
    modify (·.advance)
    let value ← if ← Production.isNext (.punctuation .semicolon) then pure none
      else some <$> expression
    Production.punctuation .semicolon
    return Stmt.return (← Production.spanFrom c.peek.span) value) fun s ts =>
      ∃ tree, s.HasTree tree ∧ tree.LaidOut ts := by
  have hmade : ∀ (value : Option Expr) d, LaysAt d (do
      Production.punctuation .semicolon
      return Stmt.return (← Production.spanFrom c.peek.span) value)
      fun s ts => ∃ m, d.Passes ts m ∧ (SyntaxTree.token (.punctuation .semicolon)).LaidOut ts ∧
        s = Stmt.return (c.peek.span.merge m.last) value := by
    intro value d
    refine (LaysAt.punctuation _).bind fun _ m =>
      (LaysAt.spanned (Stmt.return · value) _).mono ?_
    intro s none hmade sign hsign hsemicolon
    obtain ⟨rfl, rfl⟩ := hmade
    rw [List.append_nil]
    exact ⟨m, hsign, hsemicolon, rfl⟩
  refine .ordered ((LaysAt.advance_of hkind nofun).bind fun _ _ => (LaysAt.isNext _).bind
    fun found _ => .ite ?_ ?_)
  · refine (LaysAt.given none).bind fun value m => (hmade value m).mono ?_
    intro s sign hreturn none' hkept hgiven none'' hfound hnext first hfirst hkeyword hin
    obtain ⟨m', hsign, hsemicolon, rfl⟩ := hreturn
    obtain ⟨rfl, rfl⟩ := hgiven
    obtain rfl := hnext.1
    have hpasses := hfirst.trans (hfound.trans (hkept.trans hsign))
    exact ⟨_, rfl, hpasses.node hin (List.cons_ne_nil _ _)
      (.cons hkeyword (SyntaxTree.allLaidOut_singleton.2 hsemicolon))⟩
  · have hsome : ∀ d, LaysAt d (some <$> expression) fun value ts =>
        ∃ e : Expr, value = some e ∧ e.tree.LaidOut ts :=
      fun d => (hexpression d).map fun e ts he => ⟨e, rfl, he⟩
    refine (hsome _).bind fun value m => (hmade value m).mono ?_
    intro s sign hreturn inner hinner hvalue none' hfound hnext first hfirst hkeyword hin
    obtain ⟨m', hsign, hsemicolon, rfl⟩ := hreturn
    obtain ⟨e, rfl, he⟩ := hvalue
    obtain rfl := hnext.1
    have hpasses := hfirst.trans (hfound.trans (hinner.trans hsign))
    rw [List.nil_append] at hin hpasses ⊢
    exact ⟨_, rfl, hpasses.node hin (List.cons_ne_nil _ _)
      (.cons hkeyword (.cons he (SyntaxTree.allLaidOut_singleton.2 hsemicolon)))⟩

theorem lays_statement : LaysAt c (statementOver below expression) fun s ts =>
    ∃ tree, s.HasTree tree ∧ tree.LaidOut ts := by
  refine LaysAt.get_bind ?_
  dsimp only
  split
  · next hkind =>
    refine .ordered ((LaysAt.advance_of hkind nofun).bind fun _ _ => LaysAt.identifier.bind
      fun name _ => (LaysAt.assigned hexpression _).bind fun value m =>
        (LaysAt.spanned (Stmt.bind · name.node value) _).mono ?_)
    intro s none hmade ts hts hvalue word hword hname first hfirst hlet hin
    obtain ⟨rfl, rfl⟩ := hmade
    have hpasses := hfirst.trans (hword.trans (hts.trans (.refl m)))
    refine ⟨_, rfl, hpasses.node hin (List.cons_ne_nil _ _) ?_⟩
    rw [List.append_nil]
    obtain ⟨t, rfl, ht⟩ := SyntaxTree.allLaidOut_singleton.1 hname.2
    exact .cons hlet (.cons ⟨t, rfl, ht⟩ hvalue)
  · next hkind =>
    exact lays_return hexpression hkind
  · exact (lays_conditional hbelow hexpression).mono fun s ts h => h.1
  · next hkind =>
    refine .ordered ((LaysAt.advance_of hkind nofun).bind fun _ _ => (hexpression _).bind
      fun condition _ => (lays_block hbelow).bind fun body m =>
        (LaysAt.spanned (Stmt.while · condition body) _).mono ?_)
    intro s none hmade ts hts hbody inner hinner hcondition first hfirst hwhile hin
    obtain ⟨rfl, rfl⟩ := hmade
    obtain ⟨trees, htrees, hlaid⟩ := hbody
    have hpasses := hfirst.trans (hinner.trans (hts.trans (.refl m)))
    refine ⟨_, ⟨trees, htrees, rfl⟩, hpasses.node hin (List.cons_ne_nil _ _) ?_⟩
    rw [List.append_nil]
    exact .cons hwhile (.cons hcondition hlaid)
  · split
    · next name hkind _ =>
      refine .ordered ((LaysAt.advance_of hkind nofun).bind fun _ _ =>
        (LaysAt.assigned hexpression _).bind fun value m =>
          (LaysAt.spanned (Stmt.assign · name value) _).mono ?_)
      intro s none hmade ts hts hvalue first hfirst hname hin
      obtain ⟨rfl, rfl⟩ := hmade
      have hpasses := hfirst.trans (hts.trans (.refl m))
      refine ⟨_, rfl, hpasses.node hin (List.cons_ne_nil _ _) ?_⟩
      rw [List.append_nil]
      exact .cons hname hvalue
    · refine .ordered ((hexpression _).bind fun value _ => (LaysAt.punctuation _).bind fun _ m =>
        (LaysAt.spanned (Stmt.expr · value) _).mono ?_)
      intro s none hmade sign hsign hsemicolon first hfirst hvalue hin
      obtain ⟨rfl, rfl⟩ := hmade
      have hpasses := hfirst.trans (hsign.trans (.refl m))
      exact ⟨_, rfl, hpasses.node hin (List.cons_ne_nil _ _)
        (.cons hvalue (.cons hsemicolon .nil))⟩

end

theorem lays_over : (Level.over below).Lays := by
  have hexpression : ∀ c, LaysAt c (Production.keepingDepth do
      chainOver below 1 (← operandOver below)) fun e ts => e.tree.LaidOut ts := by
    intro c
    refine .keepingDepth fun d => .ordered ((lays_operand hbelow).bind fun left _ =>
      (lays_chain hbelow 1 left).mono ?_)
    intro e later he first _ hleft hin
    exact he first hleft hin
  exact ⟨fun _ => lays_operand hbelow, fun _ _ _ => lays_chain hbelow _ _,
    fun _ => lays_statement hbelow hexpression, fun _ => lays_conditional hbelow hexpression⟩

end Levels

theorem Level.withRoom_lays (n : Nat) : (Level.withRoom n).Lays := by
  induction n with
  | zero => exact lays_over fun l hl => by cases hl
  | succ n ih => exact lays_over fun l hl => Option.some.inj hl ▸ ih

end TestBench.Source
