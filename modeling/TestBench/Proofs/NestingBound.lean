import Mathlib.Tactic.Ring
import TestBench.Proofs.GrammarRuns

/-!
How deep accepted programs are. The limit on nesting is a limit on how far in
reading leads, where every operator of a chain leads one level further for what
is to its right. A tree grows to the left instead: each operator of the chain
puts one more node over all that was read before it, however deep that is. So
trees are bounded, but by the sum of what the levels can hold and not by their
number.
-/
namespace TestBench.Source

namespace Expr

/-- The operators of the chain that the expression is, if it is one. -/
def chainLength : Expr → Nat
  | binary _ _ left _ => left.chainLength + 1
  | _ => 0

mutual

/-- How many levels further in the reading of an expression leads. -/
def levels : Expr → Nat
  | constant .. | name .. => 0
  | unary _ _ operand => 1 + operand.levels
  | binary _ _ left right => max left.levels (left.chainLength + 1 + right.levels)
  | call _ _ arguments => 1 + levelsOfAll arguments
  | paren _ inner => 1 + inner.levels

def levelsOfAll : List Expr → Nat
  | [] => 0
  | e :: rest => max e.levels (levelsOfAll rest)

end

mutual

/-- How many unary and binary operators, argument lists and parentheses stand around a part of an
expression. -/
def height : Expr → Nat
  | constant .. | name .. => 0
  | unary _ _ operand => 1 + operand.height
  | binary _ _ left right => 1 + max left.height right.height
  | call _ _ arguments => 1 + heightOfAll arguments
  | paren _ inner => 1 + inner.height

def heightOfAll : List Expr → Nat
  | [] => 0
  | e :: rest => max e.height (heightOfAll rest)

end

end Expr

namespace Stmt

mutual

/-- How many levels further in the reading of a statement leads. Blocks and conditionals after
`else` are one level further in. -/
def levels : Stmt → Nat
  | bind _ _ value | assign _ _ value | expr _ value => value.levels
  | «return» _ value => (value.map Expr.levels).getD 0
  | ifThen _ condition body => max condition.levels (1 + levelsOfAll body)
  | ifElse _ condition body otherwise =>
    max condition.levels (max (1 + levelsOfAll body) (1 + levelsOfAll otherwise))
  | «while» _ condition body => max condition.levels (1 + levelsOfAll body)

def levelsOfAll : List Stmt → Nat
  | [] => 0
  | s :: rest => max s.levels (levelsOfAll rest)

end

mutual

/-- How many constructs stand around a part of a statement. -/
def height : Stmt → Nat
  | bind _ _ value | assign _ _ value | expr _ value => value.height
  | «return» _ value => (value.map Expr.height).getD 0
  | ifThen _ condition body => max condition.height (1 + heightOfAll body)
  | ifElse _ condition body otherwise =>
    max condition.height (max (1 + heightOfAll body) (1 + heightOfAll otherwise))
  | «while» _ condition body => max condition.height (1 + heightOfAll body)

def heightOfAll : List Stmt → Nat
  | [] => 0
  | s :: rest => max s.height (heightOfAll rest)

end

end Stmt

/-- An operator of a chain: how many constructs stand around it, and the operand to its left, which
it puts one level further down. -/
structure Fold where
  outside : Nat
  left : Expr

/-- There is room for the left operand where the operator puts it. -/
def Fold.Fits (f : Fold) : Prop := f.outside + 1 + f.left.height ≤ maxNesting

mutual

/-- The operators of an expression that has so many constructs around it. -/
def Expr.folds (outside : Nat) : Expr → List Fold
  | .constant .. | .name .. => []
  | .unary _ _ operand => operand.folds (outside + 1)
  | .binary _ _ left right =>
    ⟨outside, left⟩ :: (left.folds (outside + 1) ++ right.folds (outside + 1))
  | .call _ _ arguments => Expr.foldsOfAll (outside + 1) arguments
  | .paren _ inner => inner.folds (outside + 1)

def Expr.foldsOfAll (outside : Nat) : List Expr → List Fold
  | [] => []
  | e :: rest => e.folds outside ++ Expr.foldsOfAll outside rest

end

mutual

/-- The operators of a statement that has so many constructs around it. -/
def Stmt.folds (outside : Nat) : Stmt → List Fold
  | .bind _ _ value | .assign _ _ value | .expr _ value => value.folds outside
  | .return _ value => (value.map (Expr.folds outside)).getD []
  | .ifThen _ condition body => condition.folds outside ++ Stmt.foldsOfAll (outside + 1) body
  | .ifElse _ condition body otherwise =>
    condition.folds outside ++ (Stmt.foldsOfAll (outside + 1) body ++
      Stmt.foldsOfAll (outside + 1) otherwise)
  | .while _ condition body => condition.folds outside ++ Stmt.foldsOfAll (outside + 1) body

def Stmt.foldsOfAll (outside : Nat) : List Stmt → List Fold
  | [] => []
  | s :: rest => s.folds outside ++ Stmt.foldsOfAll outside rest

end

/-- The greatest height of what so many levels can hold. -/
def heightBound (levels : Nat) : Nat := levels * (levels + 3) / 2

theorem heightBound_succ (n : Nat) : heightBound (n + 1) = heightBound n + n + 2 := by
  have heq : (n + 1) * (n + 1 + 3) = n * (n + 3) + 2 * (n + 2) := by ring
  rw [heightBound, heightBound, heq, Nat.add_mul_div_left _ _ (by decide)]
  omega

namespace Expr

theorem chainLength_le_levels (e : Expr) : e.chainLength ≤ e.levels := by
  cases e with
  | binary span op left right =>
    rw [chainLength, levels]
    omega
  | _ => exact Nat.zero_le _

theorem height_eq_zero {e : Expr} (h : e.levels = 0) : e.height = 0 := by
  cases e with
  | constant | name => rfl
  | unary | call | paren | binary =>
    rw [levels] at h
    omega

/-- An expression is as high as its chain is long, over what one level less can hold. -/
theorem height_le_of_chain {e : Expr} {n : Nat} (h : e.levels ≤ n)
    (hchain : ∀ m, e.levels ≤ m + 1 → e.height ≤ e.chainLength + 1 + heightBound m) :
    e.height ≤ heightBound n := by
  cases n with
  | zero =>
    rw [height_eq_zero (Nat.le_zero.1 h)]
    exact Nat.zero_le _
  | succ m =>
    have hlength := e.chainLength_le_levels
    have hheight := hchain m h
    rw [heightBound_succ]
    omega

mutual

/-- The operators of a chain each add one to the height of the first operand, which has a level
less to itself unless it is a leaf. -/
theorem height_le_chain : ∀ (e : Expr) (n : Nat), e.levels ≤ n + 1 →
    e.height ≤ e.chainLength + 1 + heightBound n
  | constant .., _, _ => Nat.zero_le _
  | name .., _, _ => Nat.zero_le _
  | unary _ _ operand, n, h => by
    rw [levels] at h
    have hoperand := height_le_of_chain (show operand.levels ≤ n by omega) (height_le_chain operand)
    rw [height]
    omega
  | paren _ inner, n, h => by
    rw [levels] at h
    have hinner := height_le_of_chain (show inner.levels ≤ n by omega) (height_le_chain inner)
    rw [height]
    omega
  | call _ _ arguments, n, h => by
    rw [levels] at h
    have harguments := heightOfAll_le arguments n (by omega)
    rw [height]
    omega
  | binary _ _ left right, n, h => by
    rw [levels] at h
    have hleft := height_le_chain left n (by omega)
    have hright := height_le_of_chain (show right.levels ≤ n by omega) (height_le_chain right)
    rw [height, chainLength]
    omega

theorem heightOfAll_le : ∀ (es : List Expr) (n : Nat), levelsOfAll es ≤ n →
    heightOfAll es ≤ heightBound n
  | [], _, _ => Nat.zero_le _
  | e :: rest, n, h => by
    rw [levelsOfAll] at h
    have hfirst := height_le_of_chain (show e.levels ≤ n by omega) (height_le_chain e)
    have hrest := heightOfAll_le rest n (by omega)
    rw [heightOfAll]
    omega

end

theorem height_le {e : Expr} {n : Nat} (h : e.levels ≤ n) : e.height ≤ heightBound n :=
  height_le_of_chain h e.height_le_chain

end Expr

namespace Stmt

mutual

theorem height_le : ∀ (s : Stmt) (n : Nat), s.levels ≤ n → s.height ≤ heightBound n
  | bind _ _ value, n, h => Expr.height_le h
  | assign _ _ value, n, h => Expr.height_le h
  | expr _ value, n, h => Expr.height_le h
  | «return» _ none, n, _ => Nat.zero_le _
  | «return» _ (some value), n, h => Expr.height_le (e := value) h
  | ifThen _ condition body, n, h => by
    rw [levels] at h
    have hcondition := Expr.height_le (show condition.levels ≤ n by omega)
    have hbody := heightOfBlock_le body n (by omega)
    rw [height]
    omega
  | ifElse _ condition body otherwise, n, h => by
    rw [levels] at h
    have hcondition := Expr.height_le (show condition.levels ≤ n by omega)
    have hbody := heightOfBlock_le body n (by omega)
    have hotherwise := heightOfBlock_le otherwise n (by omega)
    rw [height]
    omega
  | «while» _ condition body, n, h => by
    rw [levels] at h
    have hcondition := Expr.height_le (show condition.levels ≤ n by omega)
    have hbody := heightOfBlock_le body n (by omega)
    rw [height]
    omega

/-- A block has a level less to itself than the statement it belongs to. -/
theorem heightOfBlock_le : ∀ (body : List Stmt) (n : Nat), 1 + levelsOfAll body ≤ n →
    1 + heightOfAll body ≤ heightBound n
  | body, n + 1, h => by
    have hbody := heightOfAll_le body n (by omega)
    rw [heightBound_succ]
    omega
  | _, 0, h => by omega

theorem heightOfAll_le : ∀ (body : List Stmt) (n : Nat), levelsOfAll body ≤ n →
    heightOfAll body ≤ heightBound n
  | [], _, _ => Nat.zero_le _
  | s :: rest, n, h => by
    rw [levelsOfAll] at h
    have hfirst := height_le s n (by omega)
    have hrest := heightOfAll_le rest n (by omega)
    rw [heightOfAll]
    omega

end

end Stmt

section Fitting

/-- What is so high has room where it stands only if all its operators have room for their left
operands. This suffices if its levels have room. -/
structure FitsAs (outside levels height : Nat) (folds : List Fold) : Prop where
  folds_fit : outside + height ≤ maxNesting → ∀ f ∈ folds, f.Fits
  height_fits : outside + levels ≤ maxNesting → (∀ f ∈ folds, f.Fits) →
    outside + height ≤ maxNesting

namespace FitsAs

variable {outside levels levels' height height' : Nat} {folds folds' : List Fold}

theorem leaf : FitsAs outside 0 0 [] := by
  constructor
  · intro _ f hf
    cases hf
  · intro hlevels _
    exact hlevels

theorem beside (h : FitsAs outside levels height folds)
    (h' : FitsAs outside levels' height' folds') :
    FitsAs outside (max levels levels') (max height height') (folds ++ folds') := by
  constructor
  · intro hheight
    rw [List.forall_mem_append]
    exact ⟨h.folds_fit (by omega), h'.folds_fit (by omega)⟩
  · intro hlevels hfolds
    rw [List.forall_mem_append] at hfolds
    have hfirst := h.height_fits (by omega) hfolds.1
    have hsecond := h'.height_fits (by omega) hfolds.2
    omega

theorem further (h : FitsAs (outside + 1) levels height folds) :
    FitsAs outside (1 + levels) (1 + height) folds := by
  constructor
  · intro hheight
    exact h.folds_fit (by omega)
  · intro hlevels hfolds
    have hinside := h.height_fits (by omega) hfolds
    omega

/-- An operator has to have room for its left operand itself, because that has taken levels only
where it was read. -/
theorem fold {left : Expr} {length : Nat}
    (h : FitsAs (outside + 1) levels left.height folds)
    (h' : FitsAs (outside + 1) levels' height' folds') :
    FitsAs outside (max levels (length + 1 + levels')) (1 + max left.height height')
      (⟨outside, left⟩ :: (folds ++ folds')) := by
  constructor
  · intro hheight
    rw [List.forall_mem_cons, List.forall_mem_append]
    refine ⟨?_, h.folds_fit (by omega), h'.folds_fit (by omega)⟩
    change outside + 1 + left.height ≤ maxNesting
    omega
  · intro hlevels hfolds
    rw [List.forall_mem_cons, List.forall_mem_append] at hfolds
    obtain ⟨hleft, -, hright⟩ := hfolds
    have hleft : outside + 1 + left.height ≤ maxNesting := hleft
    have hright := h'.height_fits (by omega) hright
    omega

end FitsAs

mutual

theorem Expr.fitsAs : ∀ (e : Expr) (outside : Nat),
    FitsAs outside e.levels e.height (e.folds outside)
  | .constant .., _ => .leaf
  | .name .., _ => .leaf
  | .unary _ _ operand, outside => (operand.fitsAs (outside + 1)).further
  | .paren _ inner, outside => (inner.fitsAs (outside + 1)).further
  | .call _ _ arguments, outside => (Expr.fitsAsAll arguments (outside + 1)).further
  | .binary _ _ left right, outside => (left.fitsAs (outside + 1)).fold (right.fitsAs (outside + 1))

theorem Expr.fitsAsAll : ∀ (es : List Expr) (outside : Nat),
    FitsAs outside (Expr.levelsOfAll es) (Expr.heightOfAll es) (Expr.foldsOfAll outside es)
  | [], _ => .leaf
  | e :: rest, outside => (e.fitsAs outside).beside (Expr.fitsAsAll rest outside)

end

mutual

theorem Stmt.fitsAs : ∀ (s : Stmt) (outside : Nat),
    FitsAs outside s.levels s.height (s.folds outside)
  | .bind _ _ value, outside => value.fitsAs outside
  | .assign _ _ value, outside => value.fitsAs outside
  | .expr _ value, outside => value.fitsAs outside
  | .return _ none, _ => .leaf
  | .return _ (some value), outside => value.fitsAs outside
  | .ifThen _ condition body, outside =>
    (condition.fitsAs outside).beside (Stmt.fitsAsAll body (outside + 1)).further
  | .ifElse _ condition body otherwise, outside =>
    (condition.fitsAs outside).beside ((Stmt.fitsAsAll body (outside + 1)).further.beside
      (Stmt.fitsAsAll otherwise (outside + 1)).further)
  | .while _ condition body, outside =>
    (condition.fitsAs outside).beside (Stmt.fitsAsAll body (outside + 1)).further

theorem Stmt.fitsAsAll : ∀ (body : List Stmt) (outside : Nat),
    FitsAs outside (Stmt.levelsOfAll body) (Stmt.heightOfAll body) (Stmt.foldsOfAll outside body)
  | [], _ => .leaf
  | s :: rest, outside => (s.fitsAs outside).beside (Stmt.fitsAsAll rest outside)

end

end Fitting

open Production (Reads)

/-- Everything that the productions of a level read stays within so many levels. The operators
that a chain already has are levels that were taken before. -/
structure Level.Within (good : Token → Prop) (l : Level) (n : Nat) : Prop where
  operand : Reads good l.operand fun e => e.chainLength = 0 ∧ e.levels ≤ n
  chain : ∀ least left, left.levels ≤ left.chainLength + n →
    Reads good (l.chain least left) fun e => e.levels ≤ left.chainLength + n
  statement : Reads good l.statement fun s => s.levels ≤ n
  conditional : Reads good l.conditional fun s => s.levels ≤ n

/-- There are so many levels below. -/
def Below (good : Token → Prop) : Option Level → Nat → Prop
  | none, n => n = 0
  | some l, n => ∃ m, n = m + 1 ∧ l.Within good m

section Levels

variable {good : Token → Prop} {l : Level} {below : Option Level} {n : Nat}

theorem Level.Within.binary (h : l.Within good n) (least : Nat) :
    Reads good (l.binary least) fun e => e.levels ≤ n := by
  refine .keepingDepth (h.operand.bind fun left hleft => ?_)
  refine (h.chain least left (by omega)).mono fun e he => ?_
  omega

theorem Level.Within.expression (h : l.Within good n) :
    Reads good l.expression fun e => e.levels ≤ n := h.binary 1

theorem Below.further {α : Type} {p : Level → Production α} {P : α → Prop}
    (h : Below good below n)
    (hp : ∀ l m, n = m + 1 → l.Within good m → Reads good (p l) P) :
    Reads good (further below p) P := by
  cases below with
  | none =>
    intro c r d hrun hc
    obtain ⟨rfl, rfl⟩ := Prod.mk.inj hrun
    exact ⟨hc, fun a ha => by cases ha⟩
  | some l =>
    obtain ⟨m, rfl, hl⟩ := h
    exact .inside (hp l m rfl hl)

theorem levelsOfAll_le {es : List Expr} (h : ∀ e ∈ es, e.levels ≤ n) :
    Expr.levelsOfAll es ≤ n := by
  induction es with
  | nil => exact Nat.zero_le _
  | cons e rest ih =>
    obtain ⟨hfirst, hrest⟩ := List.forall_mem_cons.1 h
    exact Nat.max_le.2 ⟨hfirst, ih hrest⟩

theorem Below.primary (h : Below good below n) :
    Reads good (primary below) fun e => e.chainLength = 0 ∧ e.levels ≤ n := by
  refine Reads.get.bind fun c _ => ?_
  dsimp only
  split
  · exact Reads.advance.bind fun _ _ => .pure ⟨rfl, Nat.zero_le _⟩
  · exact Reads.advance.bind fun _ _ => .pure ⟨rfl, Nat.zero_le _⟩
  · exact Reads.advance.bind fun _ _ => .pure ⟨rfl, Nat.zero_le _⟩
  · exact Reads.advance.bind fun _ _ => .pure ⟨rfl, Nat.zero_le _⟩
  · refine Reads.advance.bind fun _ _ => .bind (P := fun e => e.levels + 1 ≤ n)
      (h.further fun l m hm hl => hl.expression.mono fun e he => by omega) fun inner hinner => ?_
    refine (Reads.punctuation _).bind fun _ _ => (Reads.spanFrom _).bind fun _ _ => .pure ⟨rfl, ?_⟩
    rw [Expr.levels]
    omega
  · refine Reads.qualifiedName.bind fun name _ => (Reads.accept _).bind fun _ _ => .ite ?_ ?_
    · refine .bind (P := fun args => Expr.levelsOfAll args + 1 ≤ n)
        (h.further fun l m hm hl => (Reads.arguments hl.expression).mono fun args hargs => ?_)
          fun args hargs => (Reads.spanFrom _).bind fun _ _ => .pure ⟨rfl, ?_⟩
      · have hall := levelsOfAll_le hargs
        omega
      · rw [Expr.levels]
        omega
    · exact .ite (.pure ⟨rfl, Nat.zero_le _⟩) (.fail _ _)
  · exact .unexpected _

theorem Below.operand (h : Below good below n) :
    Reads good (operandOver below) fun e => e.chainLength = 0 ∧ e.levels ≤ n := by
  refine Reads.get.bind fun c _ => ?_
  dsimp only
  split
  · split
    · refine Reads.advance.bind fun _ _ => .bind (P := fun e => e.levels + 1 ≤ n)
        (h.further fun l m hm hl => hl.operand.mono fun e he => by omega)
          fun inner hinner => .pure ⟨rfl, ?_⟩
      rw [Expr.levels]
      omega
    · exact h.primary
  · exact h.primary

/-- A fold takes a level and adds an operator, so the sum of both stays what it was. -/
theorem Below.chain (h : Below good below n) (least : Nat) (left : Expr)
    (hleft : left.levels ≤ left.chainLength + n) :
    Reads good (chainOver below least left) fun e => e.levels ≤ left.chainLength + n := by
  refine .bind (P := fun _ => True) ?_ fun found _ => ?_
  · refine Reads.get.bind fun c _ => ?_
    split
    · exact .pure trivial
    · exact .pure trivial
  split
  · exact .pure hleft
  · next op =>
    cases below with
    | none => exact Reads.get.bind fun c _ => .fail _ _
    | some l =>
      obtain ⟨m, rfl, hl⟩ := h
      refine Reads.enter.bind fun _ _ => Reads.advance.bind fun _ _ =>
        (hl.binary _).bind fun right hright => ?_
      refine (hl.chain least _ ?_).mono fun e he => ?_
      · rw [Expr.levels, Expr.chainLength]
        omega
      · rw [Expr.chainLength] at he
        omega

theorem levelsOfBody_reverse_le {body : List Stmt} (h : ∀ s ∈ body, s.levels ≤ n) :
    Stmt.levelsOfAll body.reverse ≤ n := by
  have hall : ∀ body : List Stmt, (∀ s ∈ body, s.levels ≤ n) → Stmt.levelsOfAll body ≤ n := by
    intro body
    induction body with
    | nil => exact fun _ => Nat.zero_le _
    | cons s rest ih =>
      intro hbody
      obtain ⟨hfirst, hrest⟩ := List.forall_mem_cons.1 hbody
      exact Nat.max_le.2 ⟨hfirst, ih hrest⟩
  exact hall _ fun s hs => h s (List.mem_reverse.1 hs)

theorem Below.block (h : Below good below n) :
    Reads good (block below) fun body => 1 + Stmt.levelsOfAll body ≤ n := by
  refine h.further fun l m hm hl => (Reads.punctuation _).bind fun _ _ => ?_
  refine (Reads.recovering (I := fun read : List Stmt => ∀ s ∈ read, s.levels ≤ m) ?_
    (by simp)).bind fun read hread => (Reads.punctuation _).bind fun _ _ => .pure ?_
  · exact fun read hread => hl.statement.bind fun s hs => .pure (List.forall_mem_cons.2 ⟨hs, hread⟩)
  · have hbody := levelsOfBody_reverse_le hread
    omega

section

variable {expression : Production Expr}

theorem Below.conditional (h : Below good below n)
    (hexpression : Reads good expression fun e => e.levels ≤ n) :
    Reads good (conditionalOver below expression) fun s => s.levels ≤ n := by
  refine Reads.get.bind fun c _ => (Reads.keyword _).bind fun _ _ =>
    hexpression.bind fun condition hcondition => h.block.bind fun body hbody =>
      (Reads.accept _).bind fun _ _ => .ite ?_ ?_
  · have hmade : ∀ otherwise : List Stmt, 1 + Stmt.levelsOfAll otherwise ≤ n →
        Reads good (do
          return Stmt.ifElse (← Production.spanFrom c.peek.span) condition body otherwise)
          fun s : Stmt => s.levels ≤ n := by
      refine fun otherwise hotherwise => (Reads.spanFrom _).bind fun _ _ => .pure ?_
      rw [Stmt.levels]
      omega
    refine (Reads.isNext _).bind fun _ _ => .ite ?_ (h.block.bind hmade)
    refine .bind (P := fun s => s.levels + 1 ≤ n)
      (h.further fun l m hm hl => hl.conditional.mono fun s hs => by omega) fun nested hnested => ?_
    refine Reads.bind (.pure ?_) hmade
    simp only [Stmt.levelsOfAll]
    omega
  · refine (Reads.spanFrom _).bind fun _ _ => .pure ?_
    rw [Stmt.levels]
    omega

theorem Below.statement (h : Below good below n)
    (hexpression : Reads good expression fun e => e.levels ≤ n) :
    Reads good (statementOver below expression) fun s => s.levels ≤ n := by
  refine Reads.get.bind fun c _ => ?_
  dsimp only
  split
  · exact Reads.advance.bind fun _ _ => Reads.identifier.bind fun _ _ =>
      (Reads.assigned hexpression _).bind fun value hvalue => (Reads.spanFrom _).bind fun _ _ =>
        .pure hvalue
  · have hmade : ∀ value : Option Expr, (value.map Expr.levels).getD 0 ≤ n →
        Reads good (do
          Production.punctuation .semicolon
          return Stmt.return (← Production.spanFrom c.peek.span) value)
          fun s : Stmt => s.levels ≤ n :=
      fun value hvalue => (Reads.punctuation _).bind fun _ _ => (Reads.spanFrom _).bind fun _ _ =>
        .pure hvalue
    refine Reads.advance.bind fun _ _ => (Reads.isNext _).bind fun _ _ => .ite ?_ ?_
    · exact Reads.bind (.pure (Nat.zero_le n)) hmade
    · exact (hexpression.map (R := fun value => (value.map Expr.levels).getD 0 ≤ n)
        fun _ he => he).bind hmade
  · exact h.conditional hexpression
  · refine Reads.advance.bind fun _ _ => hexpression.bind fun condition hcondition =>
      h.block.bind fun body hbody => (Reads.spanFrom _).bind fun _ _ => .pure ?_
    rw [Stmt.levels]
    omega
  · split
    · exact Reads.advance.bind fun _ _ => (Reads.assigned hexpression _).bind fun value hvalue =>
        (Reads.spanFrom _).bind fun _ _ => .pure hvalue
    · exact hexpression.bind fun value hvalue => (Reads.punctuation _).bind fun _ _ =>
        (Reads.spanFrom _).bind fun _ _ => .pure hvalue

end

theorem Below.over (h : Below good below n) : (Level.over below).Within good n := by
  have hexpression : Reads good (Production.keepingDepth do
      chainOver below 1 (← operandOver below)) fun e => e.levels ≤ n := by
    refine .keepingDepth (h.operand.bind fun left hleft => ?_)
    refine (h.chain 1 left (by omega)).mono fun e he => ?_
    omega
  exact ⟨h.operand, h.chain, h.statement hexpression, h.conditional hexpression⟩

theorem Level.withRoom_within (good : Token → Prop) (n : Nat) :
    (Level.withRoom n).Within good n := by
  induction n with
  | zero => exact Below.over rfl
  | succ n ih => exact Below.over ⟨n, rfl, ih⟩

end Levels

/-- The expressions of a class that stand outside the bodies of its methods. -/
def ClassDecl.expressions (c : ClassDecl) : List Expr :=
  c.attributes.flatMap (·.arguments) ++ c.fields.map (·.value) ++
    c.methods.flatMap fun m => m.attributes.flatMap (·.arguments)

namespace Program

/-- The arguments of attributes and the initial values of fields. -/
def expressions (p : Program) : List Expr := p.classes.flatMap (·.expressions)

def bodies (p : Program) : List (List Stmt) := p.classes.flatMap fun c => c.methods.map (·.body)

/-- No more constructs than the limit says stand around any part of the program. -/
def WithinLimit (p : Program) : Prop :=
  (∀ e ∈ p.expressions, e.height ≤ maxNesting) ∧
    ∀ body ∈ p.bodies, 1 + Stmt.heightOfAll body ≤ maxNesting

/-- All operators of the program. -/
def folds (p : Program) : List Fold :=
  p.expressions.flatMap (Expr.folds 0) ++ p.bodies.flatMap (Stmt.foldsOfAll 1)

variable {good : Token → Prop} {reading : Expr → Prop} {executing : List Stmt → Prop} {p : Program}

theorem ReadFrom.expressions (h : p.ReadFrom good reading executing) :
    ∀ e ∈ p.expressions, reading e := by
  intro e he
  obtain ⟨c, hc, he⟩ := List.mem_flatMap.1 he
  have hclass := h.classes c hc
  rcases List.mem_append.1 he with he | he
  · rcases List.mem_append.1 he with he | he
    · obtain ⟨a, ha, he⟩ := List.mem_flatMap.1 he
      exact (hclass.attributes a ha).arguments e he
    · obtain ⟨f, hf, rfl⟩ := List.mem_map.1 he
      exact (hclass.fields f hf).value
  · obtain ⟨m, hm, he⟩ := List.mem_flatMap.1 he
    obtain ⟨a, ha, he⟩ := List.mem_flatMap.1 he
    exact ((hclass.methods m hm).attributes a ha).arguments e he

theorem ReadFrom.bodies (h : p.ReadFrom good reading executing) :
    ∀ body ∈ p.bodies, executing body := by
  intro body hbody
  obtain ⟨c, hc, hbody⟩ := List.mem_flatMap.1 hbody
  obtain ⟨m, hm, rfl⟩ := List.mem_map.1 hbody
  exact ((h.classes c hc).methods m hm).body

/-- What an accepted program is made of, with the levels that reading it led further in. -/
theorem readFrom_within {tokens : List Token} (htokens : ∀ t ∈ tokens, good t)
    (h : ofTokens tokens = .ok p) :
    p.ReadFrom good (fun e => e.levels ≤ maxNesting)
      fun body => 1 + Stmt.levelsOfAll body ≤ maxNesting := by
  have hroom : (Level.withRoom maxNesting).Within good maxNesting :=
    Level.withRoom_within good maxNesting
  have hbelow : Below good (some (Level.withRoom (maxNesting - 1))) maxNesting :=
    ⟨maxNesting - 1, rfl, Level.withRoom_within good (maxNesting - 1)⟩
  exact readFrom_of_ofTokens hroom.expression hbelow.block htokens h

theorem within_levels {tokens : List Token} (h : ofTokens tokens = .ok p) :
    (∀ e ∈ p.expressions, e.levels ≤ maxNesting) ∧
      ∀ body ∈ p.bodies, 1 + Stmt.levelsOfAll body ≤ maxNesting := by
  have hread := readFrom_within (fun t _ => (trivial : True)) h
  exact ⟨hread.expressions, hread.bodies⟩

theorem withinLimit_iff {tokens : List Token} (h : ofTokens tokens = .ok p) :
    p.WithinLimit ↔ ∀ f ∈ p.folds, f.Fits := by
  obtain ⟨hexpressions, hbodies⟩ := within_levels h
  rw [folds, List.forall_mem_append]
  refine and_congr ?_ ?_
  · constructor
    · intro hheights f hf
      obtain ⟨e, he, hf⟩ := List.mem_flatMap.1 hf
      have hheight := hheights e he
      exact (e.fitsAs 0).folds_fit (by omega) f hf
    · intro hfolds e he
      have hlevels := hexpressions e he
      have hfits := (e.fitsAs 0).height_fits (by omega) fun f hf =>
        hfolds f (List.mem_flatMap.2 ⟨e, he, hf⟩)
      omega
  · constructor
    · intro hheights f hf
      obtain ⟨body, hbody, hf⟩ := List.mem_flatMap.1 hf
      exact (Stmt.fitsAsAll body 1).folds_fit (hheights body hbody) f hf
    · intro hfolds body hbody
      exact (Stmt.fitsAsAll body 1).height_fits (hbodies body hbody) fun f hf =>
        hfolds f (List.mem_flatMap.2 ⟨body, hbody, hf⟩)

/-- No accepted program leads further in than there are levels. Its height is within the limit if
and only if every operator has room for its left operand. -/
theorem nesting_of_ofTokens {tokens : List Token} (h : ofTokens tokens = .ok p) :
    (∀ e ∈ p.expressions, e.levels ≤ maxNesting ∧ e.height ≤ 33152) ∧
    (∀ body ∈ p.bodies, 1 + Stmt.levelsOfAll body ≤ maxNesting ∧
      1 + Stmt.heightOfAll body ≤ 32896) ∧
    (p.WithinLimit ↔ ∀ f ∈ p.folds, f.Fits) := by
  obtain ⟨hexpressions, hbodies⟩ := within_levels h
  refine ⟨?_, ?_, withinLimit_iff h⟩
  · intro e he
    have hbound : heightBound maxNesting = 33152 := rfl
    have hheight := Expr.height_le (hexpressions e he)
    rw [hbound] at hheight
    exact ⟨hexpressions e he, hheight⟩
  · intro body hbody
    have hroom := hbodies body hbody
    have hlevels : Stmt.levelsOfAll body ≤ 255 := by
      rw [maxNesting] at hroom
      omega
    have hbound : heightBound 255 = 32895 := rfl
    have hheight := Stmt.heightOfAll_le body 255 hlevels
    rw [hbound] at hheight
    exact ⟨hroom, by omega⟩

end Program

end TestBench.Source
