import TestBench.Proofs.ExpressionTrees

/-!
The syntax trees of programs. Every part of a program that has a span is a node,
made of its tokens and of the nodes inside it: declarations, attributes, members,
the names of classes and methods, parameters and statements, besides expressions
and the names of callees. As in the spelling of a program, a conditional after
`else` may stand without braces, attributes may be divided among lists, and fields
and methods may be mixed. The tree of a program holds those of all expressions in
it.
-/
namespace TestBench.Source

open SyntaxTree (tokens enclosed inParens inBraces listed)

namespace Stmt

mutual

/-- The tree is one of the statement. -/
def HasTree : Stmt → SyntaxTree → Prop
  | bind span name value, tree => tree = .node span
      (tokens [.keyword .let, .identifier name, .operator .assign] ++
        [value.tree, .token (.punctuation .semicolon)])
  | assign span target value, tree => tree = .node span
      (tokens [.identifier target, .operator .assign] ++
        [value.tree, .token (.punctuation .semicolon)])
  | «return» span value, tree => tree = .node span
      (.token (.keyword .return) :: ((value.map Expr.tree).toList ++
        [.token (.punctuation .semicolon)]))
  | ifThen span condition body, tree => ∃ inner, AllHaveTrees body inner ∧
      tree = .node span (.token (.keyword .if) :: condition.tree :: inBraces inner)
  | ifElse span condition body otherwise, tree =>
    ∃ inner other branch, AllHaveTrees body inner ∧ AllHaveTrees otherwise other ∧
      (branch = inBraces other ∨
        branch = other ∧ ∃ s, otherwise = [s] ∧ s.isConditional = true) ∧
        tree = .node span (.token (.keyword .if) :: condition.tree ::
          (inBraces inner ++ .token (.keyword .else) :: branch))
  | «while» span condition body, tree => ∃ inner, AllHaveTrees body inner ∧
      tree = .node span (.token (.keyword .while) :: condition.tree :: inBraces inner)
  | expr span value, tree => tree = .node span [value.tree, .token (.punctuation .semicolon)]

def AllHaveTrees : List Stmt → List SyntaxTree → Prop
  | [], trees => trees = []
  | s :: rest, trees => ∃ tree more, s.HasTree tree ∧ AllHaveTrees rest more ∧ trees = tree :: more

end

mutual

/-- The expressions in a statement and all expressions in them. -/
def nodes : Stmt → List Expr
  | bind _ _ value | assign _ _ value | expr _ value => value.nodes
  | «return» _ value => (value.map Expr.nodes).getD []
  | ifThen _ condition body | «while» _ condition body => condition.nodes ++ nodesOfAll body
  | ifElse _ condition body otherwise =>
    condition.nodes ++ (nodesOfAll body ++ nodesOfAll otherwise)

def nodesOfAll : List Stmt → List Expr
  | [] => []
  | s :: rest => s.nodes ++ nodesOfAll rest

end

theorem allHaveTrees_iff {body : List Stmt} {trees : List SyntaxTree} :
    AllHaveTrees body trees ↔ List.Forall₂ HasTree body trees := by
  induction body generalizing trees with
  | nil => rw [AllHaveTrees, List.forall₂_nil_left_iff]
  | cons s rest ih => simp only [AllHaveTrees, List.forall₂_cons_left_iff, ih]

mutual

/-- The tree of a statement holds those of all expressions in it. -/
theorem HasTree.mem_subtrees : ∀ {s : Stmt} {tree : SyntaxTree}, s.HasTree tree →
    ∀ e ∈ s.nodes, e.tree ∈ tree.subtrees
  | bind _ _ value, _, h, e, he => by
    rw [HasTree] at h
    rw [h]
    exact SyntaxTree.mem_node_of_part (by simp) (value.tree_mem_subtrees e he)
  | assign _ _ value, _, h, e, he => by
    rw [HasTree] at h
    rw [h]
    exact SyntaxTree.mem_node_of_part (by simp) (value.tree_mem_subtrees e he)
  | «return» _ none, _, h, e, he => absurd he List.not_mem_nil
  | «return» _ (some value), _, h, e, he => by
    rw [HasTree] at h
    rw [h]
    exact SyntaxTree.mem_node_of_part (by simp) (value.tree_mem_subtrees e he)
  | ifThen _ condition body, _, ⟨inner, hbody, h⟩, e, he => by
    rw [h]
    rcases List.mem_append.1 he with he | he
    · exact SyntaxTree.mem_node_of_part (by simp) (condition.tree_mem_subtrees e he)
    · exact SyntaxTree.mem_node_of_parts (List.subset_cons_of_subset _ (List.subset_cons_of_subset _
        (SyntaxTree.subset_enclosed _ _ inner))) (hbody.mem_subtrees e he)
  | ifElse _ condition body otherwise, _, ⟨inner, other, branch, hbody, hother, hbranch, h⟩, e,
      he => by
    rw [h]
    rcases List.mem_append.1 he with he | he
    · exact SyntaxTree.mem_node_of_part (by simp) (condition.tree_mem_subtrees e he)
    rcases List.mem_append.1 he with he | he
    · exact SyntaxTree.mem_node_of_parts (List.subset_cons_of_subset _ (List.subset_cons_of_subset _
        (List.subset_append_of_subset_left _ (SyntaxTree.subset_enclosed _ _ inner))))
        (hbody.mem_subtrees e he)
    · have hsub : other ⊆ branch := by
        rcases hbranch with rfl | ⟨rfl, -⟩
        · exact SyntaxTree.subset_enclosed _ _ _
        · exact List.Subset.refl _
      exact SyntaxTree.mem_node_of_parts (List.subset_cons_of_subset _ (List.subset_cons_of_subset _
        (List.subset_append_of_subset_right _ (List.subset_cons_of_subset _ hsub))))
        (hother.mem_subtrees e he)
  | «while» _ condition body, _, ⟨inner, hbody, h⟩, e, he => by
    rw [h]
    rcases List.mem_append.1 he with he | he
    · exact SyntaxTree.mem_node_of_part (by simp) (condition.tree_mem_subtrees e he)
    · exact SyntaxTree.mem_node_of_parts (List.subset_cons_of_subset _ (List.subset_cons_of_subset _
        (SyntaxTree.subset_enclosed _ _ inner))) (hbody.mem_subtrees e he)
  | expr _ value, _, h, e, he => by
    rw [HasTree] at h
    rw [h]
    exact SyntaxTree.mem_node_of_part (by simp) (value.tree_mem_subtrees e he)

theorem AllHaveTrees.mem_subtrees : ∀ {body : List Stmt} {trees : List SyntaxTree},
    AllHaveTrees body trees → ∀ e ∈ nodesOfAll body, e.tree ∈ SyntaxTree.subtreesOfAll trees
  | [], _, _, e, he => absurd he List.not_mem_nil
  | s :: rest, _, ⟨tree, more, hfirst, hmore, htrees⟩, e, he => by
    rw [htrees, SyntaxTree.subtreesOfAll]
    rcases List.mem_append.1 he with he | he
    · exact List.mem_append_left _ (hfirst.mem_subtrees e he)
    · exact List.mem_append_right _ (hmore.mem_subtrees e he)

end

mutual

/-- The expressions of a statement can be read back if it is grouped as it is spelled. -/
theorem Grouped.nodes {n : Nat} : ∀ {s : Stmt}, s.Grouped → s.levels ≤ n →
    ∀ e ∈ s.nodes, e.Readable n
  | bind _ _ value, hgrouped, hlevels => Expr.Readable.nodes ⟨hgrouped, hlevels⟩
  | assign _ _ value, hgrouped, hlevels => Expr.Readable.nodes ⟨hgrouped, hlevels⟩
  | «return» _ none, _, _ => fun _ he => absurd he List.not_mem_nil
  | «return» _ (some value), hgrouped, hlevels =>
    Expr.Readable.nodes ⟨hgrouped value rfl, hlevels⟩
  | ifThen _ condition body, ⟨hcondition, hbody⟩, hlevels => by
    rw [Stmt.levels] at hlevels
    have hfirst : condition.Readable n := ⟨hcondition, by omega⟩
    exact List.forall_mem_append.2 ⟨hfirst.nodes, AllGrouped.nodes hbody (by omega)⟩
  | ifElse _ condition body otherwise, ⟨hcondition, hbody, hother⟩, hlevels => by
    rw [Stmt.levels] at hlevels
    have hfirst : condition.Readable n := ⟨hcondition, by omega⟩
    exact List.forall_mem_append.2 ⟨hfirst.nodes, List.forall_mem_append.2
      ⟨AllGrouped.nodes hbody (by omega), AllGrouped.nodes hother (by omega)⟩⟩
  | «while» _ condition body, ⟨hcondition, hbody⟩, hlevels => by
    rw [Stmt.levels] at hlevels
    have hfirst : condition.Readable n := ⟨hcondition, by omega⟩
    exact List.forall_mem_append.2 ⟨hfirst.nodes, AllGrouped.nodes hbody (by omega)⟩
  | expr _ value, hgrouped, hlevels => Expr.Readable.nodes ⟨hgrouped, hlevels⟩

theorem AllGrouped.nodes {n : Nat} : ∀ {body : List Stmt}, AllGrouped body →
    levelsOfAll body ≤ n → ∀ e ∈ nodesOfAll body, e.Readable n
  | [], _, _ => fun _ he => absurd he List.not_mem_nil
  | s :: rest, ⟨hfirst, hrest⟩, hlevels => by
    rw [levelsOfAll] at hlevels
    exact List.forall_mem_append.2
      ⟨Grouped.nodes hfirst (by omega), AllGrouped.nodes hrest (by omega)⟩

end

end Stmt

/-- The tree is one of the attribute, which may have empty parentheses if it has no arguments. -/
def Attribute.HasTree (a : Attribute) (tree : SyntaxTree) : Prop :=
  ∃ behind, (behind = [] ∧ a.arguments = [] ∨
    behind = inParens (listed (Expr.treesOfAll a.arguments))) ∧
      tree = .node a.span (tokens a.name.kinds ++ behind)

/-- The trees of attributes in any number of lists in brackets. -/
inductive AttributeTrees : List Attribute → List SyntaxTree → Prop
  | nil : AttributeTrees [] []
  | list {found more : List Attribute} {items trees : List SyntaxTree} : found ≠ [] →
      List.Forall₂ Attribute.HasTree found items → AttributeTrees more trees →
        AttributeTrees (found ++ more) (enclosed .leftBracket .rightBracket (listed items) ++ trees)

def Field.tree (f : Field) : SyntaxTree := .node f.span
  (tokens [.keyword .let, .identifier f.name, .operator .assign] ++
    [f.value.tree, .token (.punctuation .semicolon)])

/-- A name that has a place of its own. -/
def wordTree (name : Spanned String) : SyntaxTree :=
  .node name.span (tokens [.identifier name.node])

def Method.HasTree (m : Method) (tree : SyntaxTree) : Prop :=
  ∃ attributes body, AttributeTrees m.attributes attributes ∧ Stmt.AllHaveTrees m.body body ∧
    tree = .node m.span (attributes ++ .token (.keyword .fn) :: wordTree m.name ::
      (inParens (listed (m.parameters.map wordTree)) ++ inBraces body))

def Member.HasTree : Member → SyntaxTree → Prop
  | .field f, tree => tree = f.tree
  | .method m, tree => m.HasTree tree

def ClassDecl.HasTree (c : ClassDecl) (tree : SyntaxTree) : Prop :=
  ∃ attributes members body, AttributeTrees c.attributes attributes ∧
    members.filterMap Member.field? = c.fields ∧ members.filterMap Member.method? = c.methods ∧
      List.Forall₂ Member.HasTree members body ∧
        tree = .node c.span (attributes ++ .token (.keyword .classDecl) :: wordTree c.name ::
          inBraces body)

def directiveTree (word : Keyword) (name : Spanned QualifiedName) : SyntaxTree :=
  .node name.span (tokens (Declaration.directiveKinds word name.node))

def Declaration.HasTree : Declaration → SyntaxTree → Prop
  | space name, tree => tree = directiveTree .namespace name
  | use name, tree => tree = directiveTree .use name
  | type decl, tree => decl.HasTree tree

namespace Program

/-- The trees are those of the declarations of the program. -/
def HasTrees (p : Program) (trees : List SyntaxTree) : Prop :=
  ∃ declarations, p.DeclaredAs declarations ∧ List.Forall₂ Declaration.HasTree declarations trees

/-- All expressions of the program: the arguments of attributes, the values of fields, what is in
the bodies of methods, and all expressions in them. -/
def nodes (p : Program) : List Expr :=
  p.expressions.flatMap Expr.nodes ++ p.bodies.flatMap Stmt.nodesOfAll

end Program

section Nodes

open SyntaxTree (subtreesOfAll mem_subtreesOfAll mem_node_of_part mem_node_of_parts)

variable {trees : List SyntaxTree} {tree : SyntaxTree}

theorem exists_of_forall₂ {α β : Type} {R : α → β → Prop} {as : List α} {bs : List β}
    (h : List.Forall₂ R as bs) : ∀ a ∈ as, ∃ b ∈ bs, R a b := by
  induction h with
  | nil => simp
  | @cons a b as bs hab hmore ih =>
    intro other hother
    rcases List.mem_cons.1 hother with rfl | hother
    · exact ⟨b, List.mem_cons_self, hab⟩
    · obtain ⟨found, hfound, hR⟩ := ih other hother
      exact ⟨found, List.mem_cons_of_mem _ hfound, hR⟩

theorem Attribute.HasTree.mem_subtrees {a : Attribute} (h : a.HasTree tree) {e inner : Expr}
    (he : e ∈ a.arguments) (hinner : inner ∈ e.nodes) : inner.tree ∈ tree.subtrees := by
  obtain ⟨behind, ⟨-, hnone⟩ | rfl, rfl⟩ := h
  · rw [hnone] at he
    cases he
  · have hmem : e.tree ∈ Expr.treesOfAll a.arguments := by
      rw [Expr.treesOfAll_eq]
      exact List.mem_map_of_mem he
    have hpart := SyntaxTree.subset_enclosed .leftParen .rightParen _
      (SyntaxTree.subset_listed _ hmem)
    exact mem_node_of_part (List.mem_append_right _ hpart) (e.tree_mem_subtrees inner hinner)

theorem AttributeTrees.mem_subtrees {attributes : List Attribute}
    (h : AttributeTrees attributes trees) {a : Attribute} (ha : a ∈ attributes) {e inner : Expr}
    (he : e ∈ a.arguments) (hinner : inner ∈ e.nodes) : inner.tree ∈ subtreesOfAll trees := by
  induction h with
  | nil => cases ha
  | @list found more items trees hne hitems hmore ih =>
    rcases List.mem_append.1 ha with ha | ha
    · obtain ⟨tree, htree, hhas⟩ := exists_of_forall₂ hitems a ha
      have hpart := SyntaxTree.subset_enclosed .leftBracket .rightBracket _
        (SyntaxTree.subset_listed _ htree)
      exact mem_subtreesOfAll.2 ⟨tree, List.mem_append_left _ hpart, hhas.mem_subtrees he hinner⟩
    · obtain ⟨tree, htree, hin⟩ := mem_subtreesOfAll.1 (ih ha)
      exact mem_subtreesOfAll.2 ⟨tree, List.mem_append_right _ htree, hin⟩

theorem Method.HasTree.mem_subtrees {m : Method} (h : m.HasTree tree) :
    (∀ a ∈ m.attributes, ∀ e ∈ a.arguments, ∀ inner ∈ e.nodes, inner.tree ∈ tree.subtrees) ∧
      ∀ e ∈ Stmt.nodesOfAll m.body, e.tree ∈ tree.subtrees := by
  obtain ⟨attributes, body, hattributes, hbody, rfl⟩ := h
  constructor
  · intro a ha e he inner hinner
    exact mem_node_of_parts (List.subset_append_left attributes _)
      (hattributes.mem_subtrees ha he hinner)
  · intro e he
    have hsub := SyntaxTree.subset_enclosed .leftBrace .rightBrace body
    exact mem_node_of_parts (List.subset_append_of_subset_right _ (List.subset_cons_of_subset _
      (List.subset_cons_of_subset _ (List.subset_append_of_subset_right _ hsub))))
      (hbody.mem_subtrees e he)

/-- The tree of a class holds those of all expressions in it. -/
theorem ClassDecl.HasTree.mem_subtrees {c : ClassDecl} (h : c.HasTree tree) :
    (∀ e ∈ c.expressions, ∀ inner ∈ e.nodes, inner.tree ∈ tree.subtrees) ∧
      ∀ m ∈ c.methods, ∀ e ∈ Stmt.nodesOfAll m.body, e.tree ∈ tree.subtrees := by
  obtain ⟨attributes, members, body, hattributes, hfields, hmethods, hmembers, rfl⟩ := h
  have hsub := SyntaxTree.subset_enclosed .leftBrace .rightBrace body
  have hinside : ∀ member ∈ body, ∀ t ∈ member.subtrees, t ∈ (SyntaxTree.node c.span
      (attributes ++ .token (.keyword .classDecl) :: wordTree c.name ::
        inBraces body)).subtrees := by
    intro member hmember t ht
    exact mem_node_of_part (List.mem_append_right _ (List.mem_cons_of_mem _
      (List.mem_cons_of_mem _ (hsub hmember)))) ht
  have hmethod : ∀ m ∈ c.methods, ∃ t ∈ body, m.HasTree t := by
    intro m hm
    rw [← hmethods] at hm
    obtain ⟨member, hmember, hfound⟩ := List.mem_filterMap.1 hm
    obtain ⟨t, ht, hhas⟩ := exists_of_forall₂ hmembers member hmember
    cases member with
    | field decl => cases hfound
    | method decl => exact ⟨t, ht, Option.some.inj hfound ▸ hhas⟩
  constructor
  · intro e he inner hinner
    rcases List.mem_append.1 he with he | he
    · rcases List.mem_append.1 he with he | he
      · obtain ⟨a, ha, he⟩ := List.mem_flatMap.1 he
        exact mem_node_of_parts (List.subset_append_left attributes _)
          (hattributes.mem_subtrees ha he hinner)
      · obtain ⟨f, hf, rfl⟩ := List.mem_map.1 he
        rw [← hfields] at hf
        obtain ⟨member, hmember, hfound⟩ := List.mem_filterMap.1 hf
        obtain ⟨t, ht, hhas⟩ := exists_of_forall₂ hmembers member hmember
        cases member with
        | method decl => cases hfound
        | field decl =>
          obtain rfl := Option.some.inj hfound
          refine hinside t ht inner.tree ?_
          rw [Member.HasTree] at hhas
          rw [hhas]
          exact mem_node_of_part (by simp) (Expr.tree_mem_subtrees _ inner hinner)
    · obtain ⟨m, hm, he⟩ := List.mem_flatMap.1 he
      obtain ⟨a, ha, he⟩ := List.mem_flatMap.1 he
      obtain ⟨t, ht, hhas⟩ := hmethod m hm
      exact hinside t ht _ (hhas.mem_subtrees.1 a ha e he inner hinner)
  · intro m hm e he
    obtain ⟨t, ht, hhas⟩ := hmethod m hm
    exact hinside t ht _ (hhas.mem_subtrees.2 e he)

/-- The trees of a program hold those of all expressions in it. -/
theorem Program.HasTrees.mem_subtrees {p : Program} (h : p.HasTrees trees) :
    ∀ e ∈ p.nodes, e.tree ∈ subtreesOfAll trees := by
  obtain ⟨declarations, hdeclared, htrees⟩ := h
  have hclass : ∀ c ∈ p.classes, ∃ t ∈ trees, c.HasTree t := by
    intro c hc
    rw [← hdeclared.classes] at hc
    obtain ⟨declaration, hdeclaration, hfound⟩ := List.mem_filterMap.1 hc
    obtain ⟨t, ht, hhas⟩ := exists_of_forall₂ htrees declaration hdeclaration
    cases declaration with
    | space name => cases hfound
    | use name => cases hfound
    | type decl => exact ⟨t, ht, Option.some.inj hfound ▸ hhas⟩
  intro inner hinner
  rcases List.mem_append.1 hinner with hinner | hinner
  · obtain ⟨e, he, hinner⟩ := List.mem_flatMap.1 hinner
    obtain ⟨c, hc, he⟩ := List.mem_flatMap.1 he
    obtain ⟨t, ht, hhas⟩ := hclass c hc
    exact mem_subtreesOfAll.2 ⟨t, ht, hhas.mem_subtrees.1 e he inner hinner⟩
  · obtain ⟨body, hbody, hinner⟩ := List.mem_flatMap.1 hinner
    obtain ⟨c, hc, hbody⟩ := List.mem_flatMap.1 hbody
    obtain ⟨m, hm, rfl⟩ := List.mem_map.1 hbody
    obtain ⟨t, ht, hhas⟩ := hclass c hc
    exact mem_subtreesOfAll.2 ⟨t, ht, hhas.mem_subtrees.2 m hm inner hinner⟩

end Nodes

end TestBench.Source
