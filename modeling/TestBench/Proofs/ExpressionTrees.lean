import Mathlib.Data.List.Forall2
import TestBench.Proofs.Spellings
import TestBench.Proofs.SyntaxTrees
import TestBench.Proofs.NestingBound

/-!
The syntax trees of expressions. An expression has one tree, which has the same
tokens and the same spans: where the tree is laid out, no other expression is that
differs from it in its spans only.
-/
namespace TestBench.Source

namespace SyntaxTree

def tokens (ks : List TokenKind) : List SyntaxTree := ks.map token

/-- Trees between an opening and a closing mark. -/
def enclosed (opening closing : Punctuation) (inner : List SyntaxTree) : List SyntaxTree :=
  token (.punctuation opening) :: (inner ++ [token (.punctuation closing)])

def inParens (inner : List SyntaxTree) : List SyntaxTree := enclosed .leftParen .rightParen inner

def inBraces (inner : List SyntaxTree) : List SyntaxTree := enclosed .leftBrace .rightBrace inner

/-- Trees with commas between them. -/
def listed (items : List SyntaxTree) : List SyntaxTree :=
  items.intersperse (token (.punctuation .comma))

section Subtrees

variable {tree other : SyntaxTree} {trees more : List SyntaxTree}

theorem mem_subtreesOfAll :
    other ∈ subtreesOfAll trees ↔ ∃ tree ∈ trees, other ∈ tree.subtrees := by
  induction trees with
  | nil => simp [subtreesOfAll]
  | cons tree rest ih => simp [subtreesOfAll, ih]

theorem self_mem_subtrees (tree : SyntaxTree) : tree ∈ tree.subtrees := by
  cases tree with
  | token kind => exact List.mem_singleton.2 rfl
  | node span parts =>
    rw [subtrees]
    exact List.mem_cons_self

/-- What is in a part of a node is in the node. -/
theorem mem_node_of_part {span : Span} (htree : tree ∈ more) (h : other ∈ tree.subtrees) :
    other ∈ (node span more).subtrees := by
  rw [subtrees]
  exact List.mem_cons_of_mem _ (mem_subtreesOfAll.2 ⟨tree, htree, h⟩)

theorem mem_node_of_parts {span : Span} (hsub : trees ⊆ more) (h : other ∈ subtreesOfAll trees) :
    other ∈ (node span more).subtrees := by
  obtain ⟨tree, htree, hin⟩ := mem_subtreesOfAll.1 h
  exact mem_node_of_part (hsub htree) hin

theorem subset_enclosed (opening closing : Punctuation) (inner : List SyntaxTree) :
    inner ⊆ enclosed opening closing inner :=
  List.subset_cons_of_subset _ (List.subset_append_left inner _)

theorem subset_listed : ∀ items : List SyntaxTree, items ⊆ listed items
  | [] => List.Subset.refl _
  | [_] => List.Subset.refl _
  | _ :: second :: more => by
    rw [listed, List.intersperse_cons_cons, ← listed]
    exact List.cons_subset_cons _ (List.subset_cons_of_subset _ (subset_listed (second :: more)))

end Subtrees

theorem listed_injective :
    ∀ {trees more : List SyntaxTree}, listed trees = listed more → trees = more
  | [], [], _ => rfl
  | [], [_], h => by cases h
  | [], _ :: _ :: _, h => by cases h
  | [_], [], h => by cases h
  | [_], [_], h => h
  | [_], _ :: _ :: _, h => by cases (List.cons.inj h).2
  | _ :: _ :: _, [], h => by cases h
  | _ :: _ :: _, [_], h => by cases (List.cons.inj h).2
  | _ :: second :: rest, _ :: second' :: rest', h => by
    rw [listed, listed, List.intersperse_cons_cons, List.intersperse_cons_cons] at h
    obtain ⟨hfirst, hmore⟩ := List.cons.inj h
    rw [hfirst, listed_injective (List.cons.inj hmore).2]

section Kinds

theorem kindsOfAll_append (trees more : List SyntaxTree) :
    kindsOfAll (trees ++ more) = kindsOfAll trees ++ kindsOfAll more := by
  induction trees with
  | nil => rfl
  | cons tree rest ih => rw [List.cons_append, kindsOfAll, kindsOfAll, ih, List.append_assoc]

theorem kindsOfAll_tokens (ks : List TokenKind) : kindsOfAll (tokens ks) = ks := by
  induction ks with
  | nil => rfl
  | cons kind rest ih => exact congrArg (kind :: ·) ih

theorem kindsOfAll_inParens (inner : List SyntaxTree) :
    kindsOfAll (inParens inner) = parenthesized (kindsOfAll inner) := by
  simp [inParens, enclosed, parenthesized, kindsOfAll, kindsOfAll_append, kinds]

end Kinds

section Maps

variable (f : Span → Span)

theorem mapSpansOfAll_eq (trees : List SyntaxTree) :
    mapSpansOfAll f trees = trees.map (mapSpans f) := by
  induction trees with
  | nil => rfl
  | cons tree rest ih => rw [mapSpansOfAll, ih, List.map_cons]

theorem map_tokens (ks : List TokenKind) : (tokens ks).map (mapSpans f) = tokens ks := by
  rw [tokens, List.map_map]
  rfl

theorem map_enclosed (opening closing : Punctuation) (inner : List SyntaxTree) :
    (enclosed opening closing inner).map (mapSpans f) =
      enclosed opening closing (inner.map (mapSpans f)) := by
  simp [enclosed, mapSpans]

theorem map_listed : ∀ items : List SyntaxTree,
    (listed items).map (mapSpans f) = listed (items.map (mapSpans f))
  | [] => rfl
  | [_] => rfl
  | first :: second :: more => by
    have ih := map_listed (second :: more)
    rw [listed, List.map_cons] at ih
    simp [listed, List.intersperse_cons_cons, ih, mapSpans]

end Maps

end SyntaxTree

open SyntaxTree (tokens inParens listed)

def calleeTree (callee : Spanned QualifiedName) : SyntaxTree :=
  .node callee.span (tokens callee.node.kinds)

namespace Expr

mutual

def tree : Expr → SyntaxTree
  | constant span value => .node span (tokens [value.kind])
  | name span spelled => .node span (tokens [.identifier spelled])
  | unary span op operand => .node span [.token (.operator op.sign), operand.tree]
  | binary span op left right => .node span [left.tree, .token (.operator op.sign), right.tree]
  | call span callee arguments =>
    .node span (calleeTree callee :: inParens (listed (treesOfAll arguments)))
  | paren span inner => .node span (inParens [inner.tree])

def treesOfAll : List Expr → List SyntaxTree
  | [] => []
  | e :: rest => e.tree :: treesOfAll rest

end

mutual

/-- The expression and all expressions in it. -/
def nodes : Expr → List Expr
  | constant span value => [constant span value]
  | name span spelled => [name span spelled]
  | unary span op operand => unary span op operand :: operand.nodes
  | binary span op left right => binary span op left right :: (left.nodes ++ right.nodes)
  | call span callee arguments => call span callee arguments :: nodesOfAll arguments
  | paren span inner => paren span inner :: inner.nodes

def nodesOfAll : List Expr → List Expr
  | [] => []
  | e :: rest => e.nodes ++ nodesOfAll rest

end

mutual

def mapSpans (f : Span → Span) : Expr → Expr
  | constant span value => constant (f span) value
  | name span spelled => name (f span) spelled
  | unary span op operand => unary (f span) op (operand.mapSpans f)
  | binary span op left right => binary (f span) op (left.mapSpans f) (right.mapSpans f)
  | call span callee arguments =>
    call (f span) ⟨callee.node, f callee.span⟩ (mapSpansOfAll f arguments)
  | paren span inner => paren (f span) (inner.mapSpans f)

def mapSpansOfAll (f : Span → Span) : List Expr → List Expr
  | [] => []
  | e :: rest => e.mapSpans f :: mapSpansOfAll f rest

end

theorem treesOfAll_eq (es : List Expr) : treesOfAll es = es.map tree := by
  induction es with
  | nil => rfl
  | cons e rest ih => rw [treesOfAll, ih, List.map_cons]

mutual

/-- The tree of an expression holds those of all expressions in it. -/
theorem tree_mem_subtrees : ∀ e inner : Expr, inner ∈ e.nodes → inner.tree ∈ e.tree.subtrees
  | constant span value, inner, h => by
    rw [List.mem_singleton.1 h]
    exact SyntaxTree.self_mem_subtrees _
  | name span spelled, inner, h => by
    rw [List.mem_singleton.1 h]
    exact SyntaxTree.self_mem_subtrees _
  | unary span op operand, inner, h => by
    rcases List.mem_cons.1 h with rfl | h
    · exact SyntaxTree.self_mem_subtrees _
    · exact SyntaxTree.mem_node_of_part (by simp) (operand.tree_mem_subtrees inner h)
  | binary span op left right, inner, h => by
    rcases List.mem_cons.1 h with rfl | h
    · exact SyntaxTree.self_mem_subtrees _
    rcases List.mem_append.1 h with h | h
    · exact SyntaxTree.mem_node_of_part (by simp) (left.tree_mem_subtrees inner h)
    · exact SyntaxTree.mem_node_of_part (by simp) (right.tree_mem_subtrees inner h)
  | call span callee arguments, inner, h => by
    rcases List.mem_cons.1 h with rfl | h
    · exact SyntaxTree.self_mem_subtrees _
    · have hsub : treesOfAll arguments ⊆ inParens (listed (treesOfAll arguments)) :=
        List.Subset.trans (SyntaxTree.subset_listed _) (SyntaxTree.subset_enclosed _ _ _)
      exact SyntaxTree.mem_node_of_parts (List.subset_cons_of_subset _ hsub)
        (trees_mem_subtrees arguments inner h)
  | paren span operand, inner, h => by
    rcases List.mem_cons.1 h with rfl | h
    · exact SyntaxTree.self_mem_subtrees _
    · exact SyntaxTree.mem_node_of_part (SyntaxTree.subset_enclosed _ _ _ List.mem_cons_self)
        (operand.tree_mem_subtrees inner h)

theorem trees_mem_subtrees : ∀ (es : List Expr) (inner : Expr), inner ∈ nodesOfAll es →
    inner.tree ∈ SyntaxTree.subtreesOfAll (treesOfAll es)
  | [], inner, h => absurd h List.not_mem_nil
  | e :: rest, inner, h => by
    rw [treesOfAll, SyntaxTree.subtreesOfAll]
    rcases List.mem_append.1 h with h | h
    · exact List.mem_append_left _ (e.tree_mem_subtrees inner h)
    · exact List.mem_append_right _ (trees_mem_subtrees rest inner h)

end

/-- The expression is grouped as it is spelled and leads no more than `n` levels further in. -/
structure Readable (n : Nat) (e : Expr) : Prop where
  grouped : e.Grouped
  levels : e.levels ≤ n

mutual

/-- What is in an expression that can be read back can be read back too. -/
theorem Readable.nodes {n : Nat} : ∀ {e : Expr}, e.Readable n → ∀ inner ∈ e.nodes, inner.Readable n
  | constant span value, he, inner, h => List.mem_singleton.1 h ▸ he
  | name span spelled, he, inner, h => List.mem_singleton.1 h ▸ he
  | unary span op operand, ⟨⟨hnone, hgrouped⟩, hlevels⟩, inner, h => by
    rcases List.mem_cons.1 h with rfl | h
    · exact ⟨⟨hnone, hgrouped⟩, hlevels⟩
    · rw [Expr.levels] at hlevels
      exact Readable.nodes ⟨hgrouped, by omega⟩ inner h
  | binary span op left right, ⟨⟨hleft, hright, hleftGrouped, hrightGrouped⟩, hlevels⟩, inner,
      h => by
    rcases List.mem_cons.1 h with rfl | h
    · exact ⟨⟨hleft, hright, hleftGrouped, hrightGrouped⟩, hlevels⟩
    rw [Expr.levels] at hlevels
    rcases List.mem_append.1 h with h | h
    · exact Readable.nodes ⟨hleftGrouped, by omega⟩ inner h
    · exact Readable.nodes ⟨hrightGrouped, by omega⟩ inner h
  | call span callee arguments, ⟨hgrouped, hlevels⟩, inner, h => by
    rcases List.mem_cons.1 h with rfl | h
    · exact ⟨hgrouped, hlevels⟩
    · rw [Expr.levels] at hlevels
      exact Readable.nodesOfAll hgrouped (by omega) inner h
  | paren span operand, ⟨hgrouped, hlevels⟩, inner, h => by
    rcases List.mem_cons.1 h with rfl | h
    · exact ⟨hgrouped, hlevels⟩
    · rw [Expr.levels] at hlevels
      exact Readable.nodes (e := operand) ⟨hgrouped, by omega⟩ inner h

theorem Readable.nodesOfAll {n : Nat} : ∀ {es : List Expr}, AllGrouped es → levelsOfAll es ≤ n →
    ∀ inner ∈ nodesOfAll es, inner.Readable n
  | [], _, _, inner, h => absurd h List.not_mem_nil
  | e :: rest, ⟨hfirst, hrest⟩, hlevels, inner, h => by
    rw [levelsOfAll] at hlevels
    rcases List.mem_append.1 h with h | h
    · exact Readable.nodes ⟨hfirst, by omega⟩ inner h
    · exact Readable.nodesOfAll hrest (by omega) inner h

end

mutual

/-- The tree of an expression has the spans of the expression. -/
theorem tree_mapSpans (f : Span → Span) : ∀ e : Expr, (e.mapSpans f).tree = e.tree.mapSpans f
  | constant _ _ => rfl
  | name _ _ => rfl
  | unary _ op operand => by
    simp [mapSpans, tree, SyntaxTree.mapSpans, SyntaxTree.mapSpansOfAll_eq,
      tree_mapSpans f operand]
  | binary _ op left right => by
    simp [mapSpans, tree, SyntaxTree.mapSpans, SyntaxTree.mapSpansOfAll_eq, tree_mapSpans f left,
      tree_mapSpans f right]
  | call _ callee arguments => by
    simp [mapSpans, tree, calleeTree, SyntaxTree.mapSpans, SyntaxTree.mapSpansOfAll_eq,
      SyntaxTree.inParens, SyntaxTree.map_enclosed, SyntaxTree.map_listed,
      SyntaxTree.map_tokens, trees_mapSpans f arguments]
  | paren _ inner => by
    simp [mapSpans, tree, SyntaxTree.mapSpans, SyntaxTree.mapSpansOfAll_eq,
      SyntaxTree.inParens, SyntaxTree.map_enclosed, tree_mapSpans f inner]

theorem trees_mapSpans (f : Span → Span) : ∀ es : List Expr,
    treesOfAll (mapSpansOfAll f es) = (treesOfAll es).map (SyntaxTree.mapSpans f)
  | [] => rfl
  | e :: rest => by
    rw [mapSpansOfAll, treesOfAll, treesOfAll, List.map_cons, tree_mapSpans f e,
      trees_mapSpans f rest]

end

mutual

theorem bare_eq : ∀ e : Expr, e.bare = e.mapSpans fun _ => Span.empty 0
  | constant _ _ => rfl
  | name _ _ => rfl
  | unary _ _ operand => by rw [bare, mapSpans, operand.bare_eq]
  | binary _ _ left right => by rw [bare, mapSpans, left.bare_eq, right.bare_eq]
  | call _ _ arguments => by rw [bare, mapSpans, bareAll_eq_mapSpans arguments]
  | paren _ inner => by rw [bare, mapSpans, inner.bare_eq]

theorem bareAll_eq_mapSpans : ∀ es : List Expr,
    bareAll es = mapSpansOfAll (fun _ => Span.empty 0) es
  | [] => rfl
  | e :: rest => by rw [bareAll, mapSpansOfAll, e.bare_eq, bareAll_eq_mapSpans rest]

end

mutual

theorem bare_mapSpans (f : Span → Span) : ∀ e : Expr, (e.mapSpans f).bare = e.bare
  | constant _ _ => rfl
  | name _ _ => rfl
  | unary _ _ operand => by rw [mapSpans, bare, bare, bare_mapSpans f operand]
  | binary _ _ left right => by
    rw [mapSpans, bare, bare, bare_mapSpans f left, bare_mapSpans f right]
  | call _ _ arguments => by rw [mapSpans, bare, bare, bareAll_mapSpans f arguments]
  | paren _ inner => by rw [mapSpans, bare, bare, bare_mapSpans f inner]

theorem bareAll_mapSpans (f : Span → Span) : ∀ es : List Expr,
    bareAll (mapSpansOfAll f es) = bareAll es
  | [] => rfl
  | e :: rest => by rw [mapSpansOfAll, bareAll, bareAll, bare_mapSpans f e, bareAll_mapSpans f rest]

end

mutual

theorem kinds_tree : ∀ e : Expr, e.tree.kinds = e.kinds
  | constant _ value => rfl
  | name _ spelled => rfl
  | unary _ op operand => by
    simp [tree, SyntaxTree.kinds, SyntaxTree.kindsOfAll, kinds, operand.kinds_tree]
  | binary _ op left right => by
    simp [tree, SyntaxTree.kinds, SyntaxTree.kindsOfAll, kinds, left.kinds_tree, right.kinds_tree]
  | call _ callee arguments => by
    simp [tree, calleeTree, SyntaxTree.kinds, SyntaxTree.kindsOfAll, kinds,
      SyntaxTree.kindsOfAll_tokens, SyntaxTree.kindsOfAll_inParens, kinds_trees arguments]
  | paren _ inner => by
    simp [tree, SyntaxTree.kinds, SyntaxTree.kindsOfAll, kinds,
      SyntaxTree.kindsOfAll_inParens, inner.kinds_tree]

theorem kinds_trees :
    ∀ es : List Expr, SyntaxTree.kindsOfAll (listed (treesOfAll es)) = kindsOfAll es
  | [] => rfl
  | [e] => by
    rw [treesOfAll, treesOfAll, listed, List.intersperse_singleton, SyntaxTree.kindsOfAll,
      SyntaxTree.kindsOfAll, List.append_nil, kindsOfAll, e.kinds_tree]
  | e :: f :: rest => by
    have ih := kinds_trees (f :: rest)
    rw [treesOfAll, listed] at ih
    rw [treesOfAll, treesOfAll, listed, List.intersperse_cons_cons, SyntaxTree.kindsOfAll,
      SyntaxTree.kindsOfAll, ih, kindsOfAll, e.kinds_tree]
    rfl

end

section Places

variable (f : Span → Span)

mutual

/-- The spans of an expression are those of its tree. -/
theorem eq_of_tree : ∀ {e other : Expr}, e.tree = other.tree → e.mapSpans f = other.mapSpans f →
    e = other
  | constant span value, other, htree, hsame => by
    cases other with
    | constant span' value' =>
      rw [mapSpans, mapSpans, constant.injEq] at hsame
      rw [tree, tree, SyntaxTree.node.injEq] at htree
      rw [htree.1, hsame.2]
    | _ => cases hsame
  | name span spelled, other, htree, hsame => by
    cases other with
    | name span' spelled' =>
      rw [mapSpans, mapSpans, name.injEq] at hsame
      rw [tree, tree, SyntaxTree.node.injEq] at htree
      rw [htree.1, hsame.2]
    | _ => cases hsame
  | unary span op operand, other, htree, hsame => by
    cases other with
    | unary span' op' operand' =>
      rw [mapSpans, mapSpans, unary.injEq] at hsame
      rw [tree, tree, SyntaxTree.node.injEq] at htree
      have hoperand : operand.tree = operand'.tree := by simpa using (List.cons.inj htree.2).2
      rw [htree.1, hsame.2.1, eq_of_tree hoperand hsame.2.2]
    | _ => cases hsame
  | binary span op left right, other, htree, hsame => by
    cases other with
    | binary span' op' left' right' =>
      rw [mapSpans, mapSpans, binary.injEq] at hsame
      rw [tree, tree, SyntaxTree.node.injEq] at htree
      obtain ⟨hleft, hmore⟩ := List.cons.inj htree.2
      have hright : right.tree = right'.tree := by simpa using (List.cons.inj hmore).2
      rw [htree.1, hsame.2.1, eq_of_tree hleft hsame.2.2.1, eq_of_tree hright hsame.2.2.2]
    | _ => cases hsame
  | call span callee arguments, other, htree, hsame => by
    cases other with
    | call span' callee' arguments' =>
      rw [mapSpans, mapSpans, call.injEq, Spanned.mk.injEq] at hsame
      rw [tree, tree, SyntaxTree.node.injEq] at htree
      obtain ⟨hcallee, hmore⟩ := List.cons.inj htree.2
      have harguments : treesOfAll arguments = treesOfAll arguments' :=
        SyntaxTree.listed_injective (List.append_cancel_right (List.cons.inj hmore).2)
      rw [calleeTree, calleeTree, SyntaxTree.node.injEq] at hcallee
      have hname : callee = callee' := congrArg₂ Spanned.mk hsame.2.1.1 hcallee.1
      rw [htree.1, hname, eq_of_trees harguments hsame.2.2]
    | _ => cases hsame
  | paren span inner, other, htree, hsame => by
    cases other with
    | paren span' inner' =>
      rw [mapSpans, mapSpans, paren.injEq] at hsame
      rw [tree, tree, SyntaxTree.node.injEq] at htree
      have hinner : inner.tree = inner'.tree := (List.cons.inj (List.cons.inj htree.2).2).1
      rw [htree.1, eq_of_tree hinner hsame.2]
    | _ => cases hsame

theorem eq_of_trees : ∀ {es others : List Expr}, treesOfAll es = treesOfAll others →
    mapSpansOfAll f es = mapSpansOfAll f others → es = others
  | [], [], _, _ => rfl
  | [], _ :: _, htrees, _ => by cases htrees
  | _ :: _, [], htrees, _ => by cases htrees
  | e :: rest, other :: more, htrees, hsame => by
    rw [treesOfAll, treesOfAll, List.cons.injEq] at htrees
    rw [mapSpansOfAll, mapSpansOfAll, List.cons.injEq] at hsame
    rw [eq_of_tree htrees.1 hsame.1, eq_of_trees htrees.2 hsame.2]

end

end Places

variable {e other : Expr} {ts : List Token}

theorem covers_of_laidOut (h : e.tree.LaidOut ts) : e.span.Covers ts := by
  cases e <;> exact h.1

theorem map_node_of_laidOut (h : e.tree.LaidOut ts) : ts.map (·.node) = e.kinds := by
  rw [h.map_node, e.kinds_tree]

/-- Where its tree is laid out, an expression differs from all others in more than spans. -/
theorem eq_of_laidOut (h : e.tree.LaidOut ts) (h' : other.tree.LaidOut ts)
    (hsame : e.bare = other.bare) : e = other := by
  rw [bare_eq, bare_eq] at hsame
  refine eq_of_tree _ (h.unique (fun _ => Span.empty 0) h' ?_) hsame
  rw [← tree_mapSpans, hsame, tree_mapSpans]

end Expr

end TestBench.Source
