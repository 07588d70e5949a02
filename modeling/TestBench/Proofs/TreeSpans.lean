import TestBench.Proofs.PlacedSpans
import TestBench.Proofs.ProgramTrees

/-!
The nodes of syntax trees are all that has a span. The trees of a program have the
spans of the program, each as often as the program has it; the name of a class or
method comes after its attributes, and members and declarations come as they are
mixed.
-/
namespace TestBench.Source

open SyntaxTree (tokens enclosed inParens inBraces listed)

namespace SyntaxTree

/-- The spans of the nodes of a tree. -/
def spans (tree : SyntaxTree) : List Span := tree.subtrees.filterMap span?

def spansOfAll (trees : List SyntaxTree) : List Span := (subtreesOfAll trees).filterMap span?

@[simp] theorem spans_token (kind : TokenKind) : (token kind).spans = [] := rfl

@[simp] theorem spans_node (span : Span) (parts : List SyntaxTree) :
    (node span parts).spans = span :: spansOfAll parts := rfl

@[simp] theorem spansOfAll_nil : spansOfAll [] = [] := rfl

@[simp] theorem spansOfAll_cons (tree : SyntaxTree) (more : List SyntaxTree) :
    spansOfAll (tree :: more) = tree.spans ++ spansOfAll more := List.filterMap_append

@[simp] theorem spansOfAll_append (trees more : List SyntaxTree) :
    spansOfAll (trees ++ more) = spansOfAll trees ++ spansOfAll more := by
  induction trees with
  | nil => rfl
  | cons tree rest ih => simp [ih]

@[simp] theorem spansOfAll_tokens (ks : List TokenKind) : spansOfAll (tokens ks) = [] := by
  induction ks with
  | nil => rfl
  | cons kind rest ih => exact ih

@[simp] theorem spansOfAll_enclosed (opening closing : Punctuation) (inner : List SyntaxTree) :
    spansOfAll (enclosed opening closing inner) = spansOfAll inner := by
  simp [enclosed]

@[simp] theorem spansOfAll_listed : ∀ items : List SyntaxTree,
    spansOfAll (listed items) = spansOfAll items
  | [] => rfl
  | [_] => rfl
  | first :: second :: more => by
    have ih := spansOfAll_listed (second :: more)
    rw [listed] at ih
    simp [listed, List.intersperse_cons_cons, ih]

end SyntaxTree

open SyntaxTree (spansOfAll)

namespace Expr

mutual

theorem spans_tree : ∀ e : Expr, e.tree.spans = e.spans
  | constant _ _ => rfl
  | name _ _ => rfl
  | unary _ _ operand => by simp [tree, spans, operand.spans_tree]
  | binary _ _ left right => by simp [tree, spans, left.spans_tree, right.spans_tree]
  | call _ callee arguments => by
    simp [tree, calleeTree, inParens, spans, spans_trees arguments]
  | paren _ inner => by simp [tree, inParens, spans, inner.spans_tree]

theorem spans_trees : ∀ es : List Expr, SyntaxTree.spansOfAll (treesOfAll es) = spansOfAll es
  | [] => rfl
  | e :: rest => by simp [treesOfAll, spansOfAll, e.spans_tree, spans_trees rest]

end

end Expr

namespace Stmt

mutual

theorem HasTree.spans_eq : ∀ {s : Stmt} {tree : SyntaxTree}, s.HasTree tree → tree.spans = s.spans
  | bind _ _ value, _, h => by
    rw [HasTree] at h
    simp [h, spans, value.spans_tree]
  | assign _ _ value, _, h => by
    rw [HasTree] at h
    simp [h, spans, value.spans_tree]
  | «return» _ none, _, h => by
    rw [HasTree] at h
    simp [h, spans]
  | «return» _ (some value), _, h => by
    rw [HasTree] at h
    simp [h, spans, value.spans_tree]
  | ifThen _ condition body, _, ⟨inner, hbody, h⟩ => by
    simp [h, spans, inBraces, condition.spans_tree, hbody.spans_eq]
  | ifElse _ condition body otherwise, _, ⟨inner, other, branch, hbody, hother, hbranch, h⟩ => by
    have hspans : SyntaxTree.spansOfAll branch = SyntaxTree.spansOfAll other := by
      rcases hbranch with rfl | ⟨rfl, -⟩
      · simp [inBraces]
      · rfl
    simp [h, spans, inBraces, hspans, condition.spans_tree, hbody.spans_eq, hother.spans_eq]
  | «while» _ condition body, _, ⟨inner, hbody, h⟩ => by
    simp [h, spans, inBraces, condition.spans_tree, hbody.spans_eq]
  | expr _ value, _, h => by
    rw [HasTree] at h
    simp [h, spans, value.spans_tree]

theorem AllHaveTrees.spans_eq : ∀ {body : List Stmt} {trees : List SyntaxTree},
    AllHaveTrees body trees → SyntaxTree.spansOfAll trees = spansOfAll body
  | [], _, h => by
    rw [AllHaveTrees] at h
    simp [h, spansOfAll]
  | s :: rest, _, ⟨tree, more, hfirst, hmore, h⟩ => by
    simp [h, spansOfAll, hfirst.spans_eq, hmore.spans_eq]

end

end Stmt

section Declarations

variable {tree : SyntaxTree} {trees : List SyntaxTree}

theorem Attribute.HasTree.spans_eq {a : Attribute} (h : a.HasTree tree) : tree.spans = a.spans := by
  obtain ⟨behind, ⟨rfl, hnone⟩ | rfl, rfl⟩ := h
  · simp [Attribute.spans, hnone, Expr.spansOfAll]
  · simp [Attribute.spans, inParens, Expr.spans_trees]

theorem AttributeTrees.spans_eq {attributes : List Attribute}
    (h : AttributeTrees attributes trees) : spansOfAll trees = attributes.flatMap (·.spans) := by
  induction h with
  | nil => rfl
  | @list found more items trees hne hitems hmore ih =>
    have hlist : spansOfAll items = found.flatMap (·.spans) := by
      clear hne
      induction hitems with
      | nil => rfl
      | cons hfirst hrest ih => simp [hfirst.spans_eq, ih]
    simp [hlist, ih]

theorem Field.spans_tree (f : Field) : f.tree.spans = f.spans := by
  simp [Field.tree, Field.spans, Expr.spans_tree]

theorem spans_words (names : List (Spanned String)) :
    spansOfAll (names.map wordTree) = names.map (·.span) := by
  induction names with
  | nil => rfl
  | cons name rest ih => simp [wordTree, ih]

theorem Method.HasTree.spans_perm {m : Method} (h : m.HasTree tree) : tree.spans.Perm m.spans := by
  obtain ⟨attributes, body, hattributes, hbody, rfl⟩ := h
  simp only [SyntaxTree.spans_node, SyntaxTree.spansOfAll_append, SyntaxTree.spansOfAll_cons,
    SyntaxTree.spans_token, List.nil_append, wordTree, SyntaxTree.spansOfAll_tokens,
    List.cons_append, inParens, inBraces, SyntaxTree.spansOfAll_enclosed,
    SyntaxTree.spansOfAll_listed, spans_words, hattributes.spans_eq, hbody.spans_eq, Method.spans]
  exact .cons _ List.perm_middle

/-- Members that are mixed have the spans of the fields and of the methods. -/
theorem spans_members {members : List Member} (h : List.Forall₂ Member.HasTree members trees) :
    (spansOfAll trees).Perm ((members.filterMap Member.field?).flatMap (·.spans) ++
      (members.filterMap Member.method?).flatMap (·.spans)) := by
  induction h with
  | nil => exact .nil
  | @cons member tree rest more hfirst hrest ih =>
    cases member with
    | field f =>
      rw [Member.HasTree] at hfirst
      have hmore := ih.append_left f.spans
      simpa [List.filterMap_cons, Member.field?, Member.method?, hfirst, f.spans_tree] using hmore
    | method m =>
      have hmore := (hfirst.spans_perm.append ih).trans (List.perm_append_comm_assoc ..)
      simpa [List.filterMap_cons, Member.field?, Member.method?] using hmore

theorem ClassDecl.HasTree.spans_perm {c : ClassDecl} (h : c.HasTree tree) :
    tree.spans.Perm c.spans := by
  obtain ⟨attributes, members, body, hattributes, hfields, hmethods, hmembers, rfl⟩ := h
  have hbody := spans_members hmembers
  rw [hfields, hmethods] at hbody
  simp only [SyntaxTree.spans_node, SyntaxTree.spansOfAll_append, SyntaxTree.spansOfAll_cons,
    SyntaxTree.spans_token, List.nil_append, wordTree, SyntaxTree.spansOfAll_tokens,
    List.cons_append, inBraces, SyntaxTree.spansOfAll_enclosed, hattributes.spans_eq,
    ClassDecl.spans]
  exact .cons _ (List.perm_middle.trans (.cons _ (hbody.append_left _)))

theorem directiveTree_spans (word : Keyword) (name : Spanned QualifiedName) :
    (directiveTree word name).spans = [name.span] := by
  simp [directiveTree]

/-- The nodes of the trees of a program are all parts of the program that have a span. -/
theorem Program.HasTrees.spans_perm {p : Program} (h : p.HasTrees trees) :
    (spansOfAll trees).Perm p.spans := by
  obtain ⟨declarations, hdeclared, htrees⟩ := h
  rw [Program.spans, ← hdeclared.space, ← hdeclared.uses, ← hdeclared.classes]
  clear hdeclared
  induction htrees with
  | nil => exact .nil
  | @cons declaration tree rest more hfirst hrest ih =>
    cases declaration with
    | space name =>
      rw [Declaration.HasTree] at hfirst
      have hmore := ih.append_left [name.span]
      simpa [List.filterMap_cons, Declaration.space?, Declaration.use?, Declaration.type?, hfirst,
        directiveTree_spans] using hmore
    | use name =>
      rw [Declaration.HasTree] at hfirst
      have hmore := (ih.append_left [name.span]).trans (List.perm_append_comm_assoc ..)
      simpa [List.filterMap_cons, Declaration.space?, Declaration.use?, Declaration.type?, hfirst,
        directiveTree_spans] using hmore
    | type decl =>
      have htype : tree.spans.Perm decl.spans := ClassDecl.HasTree.spans_perm hfirst
      have hmore := (htype.append ih).trans ((List.perm_append_comm_assoc ..).trans
        ((List.perm_append_comm_assoc ..).append_left _))
      simpa [List.filterMap_cons, Declaration.space?, Declaration.use?, Declaration.type?]
        using hmore

end Declarations

end TestBench.Source
