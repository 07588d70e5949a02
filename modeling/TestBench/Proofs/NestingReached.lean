import TestBench.Proofs.NestingBound

/-!
The bound on heights is reached. A tower of parentheses in which each pair is
followed by as many operators as there are pairs inside it, itself included,
uses all the levels that there are, and each of its operators stands over all
that was read before it.
-/
namespace TestBench.Source

/-- A token of a text whose positions do not matter. -/
def mark (kind : TokenKind) : Token := ⟨kind, Span.empty 0⟩

def zero : Token := mark (.integer .zero)

/-- So many additions of zero. -/
def additions : Nat → List Token
  | 0 => []
  | n + 1 => mark (.operator .plus) :: zero :: additions n

/-- Zero in so many parentheses, which are followed by one more addition each. -/
def tower : Nat → List Token
  | 0 => [zero]
  | n + 1 => mark (.punctuation .leftParen) ::
      (tower n ++ mark (.punctuation .rightParen) :: additions (n + 1))

/-- What follows does not go on with an expression. -/
def Stops (rest : List Token) : Prop :=
  ∃ sign more, rest = mark (.punctuation sign) :: more

namespace Production

variable {α β : Type} {p : Production α} {next : α → Production β} {a : α} {b : β}
  {c d e : Cursor}

theorem bind_run_ok (hp : p c = (.ok a, d)) (hnext : next a d = (.ok b, e)) :
    (p >>= next) c = (.ok b, e) := by
  rw [bind_run, hp]
  exact hnext

theorem inside_run_ok (hdepth : c.depth < maxNesting)
    (hp : p { c with depth := c.depth + 1 } = (.ok a, d)) :
    inside p c = (.ok a, { d with depth := d.depth - 1 }) := by
  rw [inside, if_pos hdepth, hp]

theorem enter_run_ok (hdepth : c.depth < maxNesting) :
    enter c = (.ok (), { c with depth := c.depth + 1 }) := if_pos hdepth

theorem keepingDepth_run_ok (hp : p c = (.ok a, d)) :
    keepingDepth p c = (.ok a, { d with depth := c.depth }) := by
  rw [keepingDepth, hp]

end Production

open Production

section Runs

variable {rest : List Token} {last : Span} {depth : Nat} {faults : List (Spanned SyntaxFault)}

/-- The expression that the token reads as. -/
def zeroExpr : Expr := .constant zero.span (.integer .zero)

theorem operand_zero (m : Nat) : (Level.withRoom m).operand ⟨zero :: rest, last, depth, faults⟩ =
    (.ok zeroExpr, ⟨rest, zero.span, depth, faults⟩) := by
  cases m <;> rfl

/-- No addition goes on with a product. -/
theorem nextOperator_additions (hrest : Stops rest) (k : Nat) :
    nextOperator 6 ⟨additions k ++ rest, last, depth, faults⟩ =
      (.ok none, ⟨additions k ++ rest, last, depth, faults⟩) := by
  obtain ⟨sign, more, rfl⟩ := hrest
  cases k <;> rfl

theorem chain_stops {m least : Nat} {left : Expr} {c : Cursor}
    (h : nextOperator least c = (.ok none, c)) :
    (Level.withRoom m).chain least left c = (.ok left, c) := by
  cases m <;> exact bind_run_ok h rfl

/-- The right operand of an addition. -/
theorem binary_zero (hrest : Stops rest) (m k : Nat) :
    (Level.withRoom m).binary 6 ⟨zero :: (additions k ++ rest), last, depth, faults⟩ =
      (.ok zeroExpr, ⟨additions k ++ rest, zero.span, depth, faults⟩) :=
  keepingDepth_run_ok (bind_run_ok (operand_zero m) (chain_stops (nextOperator_additions hrest k)))

/-- Each addition stands over all that is to its left. -/
theorem chain_additions (hrest : Stops rest) : ∀ (k m : Nat) (left : Expr) (last : Span)
    (depth : Nat), k ≤ m → depth + k ≤ maxNesting → ∃ e last' depth',
      (Level.withRoom m).chain 1 left ⟨additions k ++ rest, last, depth, faults⟩ =
        (.ok e, ⟨rest, last', depth', faults⟩) ∧ e.height = left.height + k
  | 0, m, left, last, depth, _, _ => by
    obtain ⟨sign, more, rfl⟩ := hrest
    exact ⟨left, last, depth, chain_stops rfl, rfl⟩
  | k + 1, 0, _, _, _, hk, _ => by omega
  | k + 1, m + 1, left, last, depth, hk, hdepth => by
    let node : Expr := .binary (left.span.merge zeroExpr.span) .add left zeroExpr
    obtain ⟨e, last', depth', hrun, hheight⟩ :=
      chain_additions hrest k m node zero.span (depth + 1) (by omega) (by omega)
    refine ⟨e, last', depth', ?_, ?_⟩
    · have hplus : nextOperator 1 ⟨additions (k + 1) ++ rest, last, depth, faults⟩ =
          (.ok (some .add), ⟨additions (k + 1) ++ rest, last, depth, faults⟩) := rfl
      refine bind_run_ok hplus (bind_run_ok (enter_run_ok (by simp only; omega)) ?_)
      refine bind_run_ok rfl (bind_run_ok (binary_zero hrest m k) hrun)
    · rw [hheight]
      simp only [node, Expr.height, zeroExpr]
      omega

/-- A tower is read with as many levels as it has parentheses. -/
theorem expression_tower : ∀ (n m : Nat) {rest : List Token} (last : Span) (depth : Nat),
    Stops rest → n ≤ m → depth + n ≤ maxNesting → ∃ e last',
      (Level.withRoom m).expression ⟨tower n ++ rest, last, depth, faults⟩ =
        (.ok e, ⟨rest, last', depth, faults⟩) ∧ e.height = heightBound n
  | 0, m, rest, last, depth, hrest, _, _ => by
    obtain ⟨sign, more, rfl⟩ := hrest
    exact ⟨zeroExpr, zero.span,
      keepingDepth_run_ok (bind_run_ok (operand_zero m) (chain_stops rfl)), rfl⟩
  | n + 1, 0, _, _, _, _, hm, _ => by omega
  | n + 1, m + 1, rest, last, depth, hrest, hm, hdepth => by
    let behind := mark (.punctuation .rightParen) :: (additions (n + 1) ++ rest)
    have htower : tower (n + 1) ++ rest =
        mark (.punctuation .leftParen) :: (tower n ++ behind) := by
      simp [tower, behind]
    obtain ⟨inner, last', hinner, hinnerHeight⟩ := expression_tower n m
      (mark (.punctuation .leftParen)).span (depth + 1) ⟨.rightParen, _, rfl⟩ (by omega) (by omega)
    let whole : Expr := .paren (Span.empty 0) inner
    obtain ⟨e, last'', depth', hchain, hheight⟩ := chain_additions hrest (n + 1) (m + 1) whole
      (mark (.punctuation .rightParen)).span depth hm hdepth
    have hparen : (Level.withRoom (m + 1)).operand ⟨tower (n + 1) ++ rest, last, depth, faults⟩ =
        (.ok whole, ⟨additions (n + 1) ++ rest, (mark (.punctuation .rightParen)).span, depth,
          faults⟩) := by
      rw [htower]
      have hinside := inside_run_ok (c := ⟨tower n ++ behind, _, depth, faults⟩)
        (show depth < maxNesting by omega) hinner
      exact bind_run_ok rfl (bind_run_ok rfl (bind_run_ok rfl
        (bind_run_ok hinside (bind_run_ok rfl (bind_run_ok rfl rfl)))))
    refine ⟨e, last'', keepingDepth_run_ok (bind_run_ok hparen hchain), ?_⟩
    rw [hheight, Expr.height, hinnerHeight, heightBound_succ]
    omega

end Runs

namespace Production

variable {σ : Type} {stop : Cursor → Bool} {item : σ → Production σ} {s s' : σ} {c d : Cursor}

theorem recoveringUpTo_stop (h : stop c = true) (limit : Nat) :
    recoveringUpTo stop item limit s c = (s, c) := by
  cases limit with
  | zero => rfl
  | succ limit => exact if_pos h

theorem recoveringUpTo_item (h : stop c = false) (hitem : item s c = (.ok s', d)) (limit : Nat) :
    recoveringUpTo stop item (limit + 1) s c = recoveringUpTo stop item limit s' d := by
  rw [recoveringUpTo, h, hitem]
  rfl

end Production

def closing : List Token := [mark (.punctuation .rightBrace), mark .endOfFile]

/-- The tokens of a class with one member. -/
def classAround (inside : List Token) : List Token :=
  mark (.keyword .classDecl) :: mark (.identifier "A") :: mark (.punctuation .leftBrace) ::
    (inside ++ closing)

section Classes

variable {inside : List Token} {m : Member} {l : Level} {below : Option Level} {last : Span}
  (hstart : closesBlock ⟨inside ++ closing, Span.empty 0, 0, []⟩ = false)
  (hmember : member l below ⟨inside ++ closing, Span.empty 0, 0, []⟩ =
    (.ok m, ⟨closing, last, 0, []⟩))

include hstart hmember

theorem classDecl_around : ∃ decl,
    classDecl l below ⟨classAround inside, Span.empty 0, 0, []⟩ =
      (.ok decl, ⟨[mark .endOfFile], Span.empty 0, 0, []⟩) ∧ decl.attributes = [] ∧
        decl.fields = [m].filterMap Member.field? ∧
        decl.methods = [m].filterMap Member.method? := by
  let item : List Member → Production (List Member) := fun read =>
    return (← member l below) :: read
  have hitem : item [] ⟨inside ++ closing, Span.empty 0, 0, []⟩ =
      (.ok [m], ⟨closing, last, 0, []⟩) := bind_run_ok hmember rfl
  have hlength : (inside ++ closing).length = inside.length + 1 + 1 := List.length_append
  have hmembers : recovering closesBlock item [] ⟨inside ++ closing, Span.empty 0, 0, []⟩ =
      (.ok [m], ⟨closing, last, 0, []⟩) := by
    simp only [recovering, hlength]
    rw [recoveringUpTo_item hstart hitem, recoveringUpTo_stop rfl]
  refine ⟨_, bind_run_ok rfl (bind_run_ok rfl (bind_run_ok rfl (bind_run_ok rfl (bind_run_ok rfl
    (bind_run_ok hmembers (bind_run_ok rfl (bind_run_ok rfl rfl))))))), rfl, rfl, rfl⟩

end Classes

/-- A class with one member is a program. -/
theorem ofTokens_class {inside : List Token} {m : Member} {last : Span}
    (hstart : closesBlock ⟨inside ++ closing, Span.empty 0, 0, []⟩ = false)
    (hmember : member Level.outermost (some (Level.withRoom (maxNesting - 1)))
      ⟨inside ++ closing, Span.empty 0, 0, []⟩ = (.ok m, ⟨closing, last, 0, []⟩)) :
    ∃ p, Program.ofTokens (classAround inside) = .ok p ∧ ∃ decl, p.classes = [decl] ∧
      decl.attributes = [] ∧ decl.fields = [m].filterMap Member.field? ∧
        decl.methods = [m].filterMap Member.method? := by
  obtain ⟨decl, hrun, hdecl⟩ := classDecl_around hstart hmember
  refine ⟨⟨none, [], [decl]⟩, ?_, decl, rfl, hdecl⟩
  have hitem : declaration Level.outermost (some (Level.withRoom (maxNesting - 1))) Program.empty
      (Cursor.start (classAround inside)) =
        (.ok ⟨none, [], [decl]⟩, ⟨[mark .endOfFile], Span.empty 0, 0, []⟩) :=
    bind_run_ok rfl (bind_run_ok hrun rfl)
  have hread : recoveringUpTo Cursor.atEnd
      (declaration (Level.over (some (Level.withRoom (maxNesting - 1))))
        (some (Level.withRoom (maxNesting - 1))))
      (classAround inside).length Program.empty (Cursor.start (classAround inside)) =
        (⟨none, [], [decl]⟩, ⟨[mark .endOfFile], Span.empty 0, 0, []⟩) :=
    (recoveringUpTo_item rfl hitem _).trans (recoveringUpTo_stop rfl _)
  unfold Program.ofTokens
  simp only [hread]
  rfl

/-- A field with a tower as its initial value. -/
def towerField (n : Nat) : List Token :=
  mark (.keyword .let) :: mark (.identifier "x") :: mark (.operator .assign) ::
    (tower n ++ [mark (.punctuation .semicolon)])

theorem member_towerField {n : Nat} (hn : n ≤ maxNesting) (below : Option Level) :
    ∃ e, e.height = heightBound n ∧
      member Level.outermost below ⟨towerField n ++ closing, Span.empty 0, 0, []⟩ =
        (.ok (.field ⟨Span.empty 0, "x", e⟩), ⟨closing, Span.empty 0, 0, []⟩) := by
  let behind := mark (.punctuation .semicolon) :: closing
  have htokens : towerField n ++ closing = mark (.keyword .let) :: mark (.identifier "x") ::
      mark (.operator .assign) :: (tower n ++ behind) := by
    simp [towerField, behind]
  have hbehind : Stops behind := ⟨.semicolon, closing, rfl⟩
  obtain ⟨e, last, hrun, hheight⟩ :=
    expression_tower n maxNesting (Span.empty 0) 0 hbehind hn (by omega)
  have hassigned : assigned Level.outermost.expression .fieldInitializer
      ⟨mark (.operator .assign) :: (tower n ++ behind), Span.empty 0, 0, []⟩ =
        (.ok e, ⟨closing, Span.empty 0, 0, []⟩) :=
    bind_run_ok rfl (bind_run_ok hrun (bind_run_ok rfl rfl))
  refine ⟨e, hheight, ?_⟩
  rw [htokens]
  exact bind_run_ok rfl (bind_run_ok rfl (bind_run_ok rfl (bind_run_ok rfl (bind_run_ok rfl
    (bind_run_ok hassigned (bind_run_ok rfl rfl))))))

theorem ofTokens_towerField {n : Nat} (hn : n ≤ maxNesting) :
    ∃ p, Program.ofTokens (classAround (towerField n)) = .ok p ∧
      ∃ e ∈ p.expressions, e.height = heightBound n := by
  obtain ⟨e, hheight, hmember⟩ := member_towerField hn (some (Level.withRoom (maxNesting - 1)))
  obtain ⟨p, hp, decl, hclasses, _, hfields, _⟩ := ofTokens_class rfl hmember
  refine ⟨p, hp, e, ?_, hheight⟩
  rw [Program.expressions, hclasses, List.flatMap_singleton, ClassDecl.expressions, hfields]
  exact List.mem_append_left _ (List.mem_append_right _ (List.mem_singleton_self e))

/-- A value of an accepted program is as high as all levels together can make it, which is far
above the limit. -/
theorem exists_highest_value : ∃ tokens p, Program.ofTokens tokens = .ok p ∧
    ∃ e ∈ p.expressions, e.height = 33152 ∧ maxNesting < e.height := by
  obtain ⟨p, hp, e, he, hheight⟩ := ofTokens_towerField (Nat.le_refl maxNesting)
  have hbound : heightBound maxNesting = 33152 := rfl
  rw [hbound] at hheight
  refine ⟨_, p, hp, e, he, hheight, ?_⟩
  rw [hheight]
  decide

theorem nesting_of_ofTokens_tower : ∃ p, Program.ofTokens (classAround (towerField 30)) = .ok p ∧
    (∀ e ∈ p.expressions, e.levels ≤ maxNesting ∧ e.height ≤ 33152) ∧ ¬ p.WithinLimit ∧
      ∃ f ∈ p.folds, ¬ f.Fits := by
  obtain ⟨p, hp, e, he, hheight⟩ := ofTokens_towerField (n := 30) (by decide)
  obtain ⟨hexpressions, -, hiff⟩ := Program.nesting_of_ofTokens hp
  have hover : ¬ p.WithinLimit := by
    intro hwithin
    have hlow := hwithin.1 e he
    rw [hheight] at hlow
    exact absurd hlow (by decide)
  refine ⟨p, hp, hexpressions, hover, ?_⟩
  rw [hiff] at hover
  push Not at hover
  exact hover

end TestBench.Source
