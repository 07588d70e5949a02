import TestBench.Proofs.LexedParts

/-!
Syntax trees. A node of a program is made of the tokens it was read from, some of
which belong to nodes inside it. A tree is laid out on tokens if they are its
tokens and each of its nodes goes from the start of its first token to the end of
its last. On tokens that are in order, nodes are then inside the node they are
part of, in order and apart.
-/
namespace TestBench

namespace Token

/-- No token ends before it starts, and each starts where the one before has ended. -/
structure InOrder (ts : List Token) : Prop where
  start_le_stop : ∀ t ∈ ts, t.span.start ≤ t.span.stop
  apart : ts.Pairwise fun t u => t.span.stop ≤ u.span.start

namespace InOrder

variable {ts us : List Token}

theorem of_sublist (h : InOrder us) (hsub : ts.Sublist us) : InOrder ts :=
  ⟨fun t ht => h.start_le_stop t (hsub.subset ht), h.apart.sublist hsub⟩

theorem left (h : InOrder (ts ++ us)) : InOrder ts := h.of_sublist (List.sublist_append_left ts us)

theorem right (h : InOrder (ts ++ us)) : InOrder us :=
  h.of_sublist (List.sublist_append_right ts us)

/-- What comes first ends before what comes later starts. -/
theorem stop_le_start (h : InOrder (ts ++ us)) : ∀ t ∈ ts, ∀ u ∈ us, t.span.stop ≤ u.span.start :=
  (List.pairwise_append.1 h.apart).2.2

theorem head_le {first : Token} (h : InOrder ts) (hfirst : ts.head? = some first) :
    ∀ t ∈ ts, first.span.start ≤ t.span.start := by
  obtain ⟨more, rfl⟩ := List.head?_eq_some_iff.1 hfirst
  intro t ht
  rcases List.mem_cons.1 ht with rfl | hmore
  · exact Nat.le_refl _
  · have hstop := h.start_le_stop first List.mem_cons_self
    have hnext := (List.pairwise_cons.1 h.apart).1 t hmore
    omega

theorem le_last {last : Token} (h : InOrder ts) (hlast : ts.getLast? = some last) :
    ∀ t ∈ ts, t.span.stop ≤ last.span.stop := by
  obtain ⟨front, rfl⟩ := List.getLast?_eq_some_iff.1 hlast
  intro t ht
  rcases List.mem_append.1 ht with hfront | hsame
  · have hstart := h.start_le_stop last (List.mem_append_right _ List.mem_cons_self)
    have hnext := h.stop_le_start t hfront last List.mem_cons_self
    omega
  · rw [List.mem_singleton.1 hsame]

end InOrder

end Token

open Token (InOrder)

namespace Span

/-- The span goes from the start of the first token to the end of the last. -/
def Covers (s : Span) (ts : List Token) : Prop :=
  ∃ first last, ts.head? = some first ∧ ts.getLast? = some last ∧
    s = ⟨first.span.start, last.span.stop⟩

namespace Covers

variable {s s' : Span} {ts us : List Token}

theorem token (t : Token) : Covers t.span [t] := ⟨t, t, rfl, rfl, rfl⟩

theorem ne_nil (h : Covers s ts) : ts ≠ [] := by
  obtain ⟨first, -, hfirst, -⟩ := h
  rintro rfl
  cases hfirst

theorem head (h : Covers s ts) : ∃ first, ts.head? = some first ∧ s.start = first.span.start := by
  obtain ⟨first, -, hfirst, -, rfl⟩ := h
  exact ⟨first, hfirst, rfl⟩

theorem unique (h : Covers s ts) (h' : Covers s' ts) : s = s' := by
  obtain ⟨first, last, hfirst, hlast, rfl⟩ := h
  obtain ⟨first', last', hfirst', hlast', rfl⟩ := h'
  obtain rfl := Option.some.inj (hfirst.symm.trans hfirst')
  obtain rfl := Option.some.inj (hlast.symm.trans hlast')
  rfl

/-- Together with a span that begins no earlier, it goes up to where that ends. -/
theorem merge {last : Token} (h : Covers s ts) (hin : InOrder (ts ++ us))
    (hlast : (ts ++ us).getLast? = some last) (hstart : s.start ≤ s'.start)
    (hstop : s'.stop = last.span.stop) : Covers (s.merge s') (ts ++ us) := by
  obtain ⟨first, middle, hfirst, hmiddle, rfl⟩ := h
  have hmem : middle ∈ ts ++ us := List.mem_append_left us (List.mem_of_getLast? hmiddle)
  refine ⟨first, last, ?_, hlast, ?_⟩
  · rw [List.head?_append, hfirst, Option.some_or]
  · have hle := hin.le_last hlast middle hmem
    simp only [Span.merge, hstop, Nat.min_eq_left hstart, Nat.max_eq_right hle]

/-- What covers the one and what covers the other cover both and all that is between them. -/
theorem both (h : Covers s ts) (h' : Covers s' us) {between : List Token}
    (hin : InOrder (ts ++ (between ++ us))) : Covers (s.merge s') (ts ++ (between ++ us)) := by
  obtain ⟨first, last, hfirst, hlast, rfl⟩ := h'
  have hend : (ts ++ (between ++ us)).getLast? = some last := by
    simp [List.getLast?_append, hlast]
  refine h.merge hin hend ?_ rfl
  obtain ⟨start, -, hstart, -, rfl⟩ := h
  have hhead : (ts ++ (between ++ us)).head? = some start := by
    rw [List.head?_append, hstart, Option.some_or]
  have hmem : first ∈ ts ++ (between ++ us) := by simp [List.mem_of_head? hfirst]
  exact hin.head_le hhead first hmem

theorem shift (h : Covers s ts) (distance : Nat) :
    Covers (s.shift distance) (ts.map (Token.shifted distance)) := by
  obtain ⟨first, last, hfirst, hlast, rfl⟩ := h
  refine ⟨first.shifted distance, last.shifted distance, ?_, ?_, rfl⟩
  · rw [List.head?_map, hfirst]
    rfl
  · rw [List.getLast?_map, hlast]
    rfl

end Covers

/-- The parts are in the span, in order and apart. -/
structure Encloses (s : Span) (parts : List Span) : Prop where
  within : ∀ part ∈ parts, s.start ≤ part.start ∧ part.stop ≤ s.stop
  apart : parts.Pairwise fun a b => a.stop ≤ b.start

end Span

namespace Source

/-- A token, or a node with the place of all that it is made of. -/
inductive SyntaxTree where
  | token (kind : TokenKind)
  | node (span : Span) (parts : List SyntaxTree)

namespace SyntaxTree

def span? : SyntaxTree → Option Span
  | token _ => none
  | node span _ => some span

mutual

/-- The tokens are those of the tree, and each of its nodes covers its own. -/
def LaidOut : SyntaxTree → List Token → Prop
  | token kind, ts => ∃ t, ts = [t] ∧ t.node = kind
  | node span parts, ts => span.Covers ts ∧ AllLaidOut parts ts

/-- One tree after the other. -/
def AllLaidOut : List SyntaxTree → List Token → Prop
  | [], ts => ts = []
  | tree :: more, ts => ∃ first later, ts = first ++ later ∧ tree.LaidOut first ∧
      AllLaidOut more later

end

mutual

/-- What a node is made of is inside it, in order and apart. -/
def Nested : SyntaxTree → Prop
  | token _ => True
  | node span parts => span.Encloses (parts.filterMap span?) ∧ AllNested parts

def AllNested : List SyntaxTree → Prop
  | [] => True
  | tree :: more => tree.Nested ∧ AllNested more

end

mutual

/-- The tree and all trees in it. -/
def subtrees : SyntaxTree → List SyntaxTree
  | token kind => [token kind]
  | node span parts => node span parts :: subtreesOfAll parts

def subtreesOfAll : List SyntaxTree → List SyntaxTree
  | [] => []
  | tree :: more => tree.subtrees ++ subtreesOfAll more

end

mutual

/-- The kinds of the tokens of a tree. -/
def kinds : SyntaxTree → List TokenKind
  | token kind => [kind]
  | node _ parts => kindsOfAll parts

def kindsOfAll : List SyntaxTree → List TokenKind
  | [] => []
  | tree :: more => tree.kinds ++ kindsOfAll more

end

mutual

def mapSpans (f : Span → Span) : SyntaxTree → SyntaxTree
  | token kind => token kind
  | node span parts => node (f span) (mapSpansOfAll f parts)

def mapSpansOfAll (f : Span → Span) : List SyntaxTree → List SyntaxTree
  | [] => []
  | tree :: more => tree.mapSpans f :: mapSpansOfAll f more

end

section Layout

variable {tree : SyntaxTree} {trees more : List SyntaxTree} {ts us : List Token}

theorem AllLaidOut.nil : AllLaidOut [] [] := by
  rw [AllLaidOut]

theorem AllLaidOut.cons (h : tree.LaidOut ts) (hmore : AllLaidOut more us) :
    AllLaidOut (tree :: more) (ts ++ us) := by
  rw [AllLaidOut]
  exact ⟨ts, us, rfl, h, hmore⟩

theorem allLaidOut_singleton : AllLaidOut [tree] ts ↔ tree.LaidOut ts := by
  constructor
  · intro h
    obtain ⟨first, later, rfl, hfirst, hlater⟩ := h
    rw [AllLaidOut] at hlater
    rwa [hlater, List.append_nil]
  · intro h
    rw [← List.append_nil ts]
    exact .cons h .nil

theorem LaidOut.ne_nil (h : tree.LaidOut ts) : ts ≠ [] := by
  cases tree with
  | token kind =>
    obtain ⟨t, rfl, -⟩ := h
    exact List.cons_ne_nil t []
  | node span parts =>
    rw [LaidOut] at h
    exact h.1.ne_nil

theorem AllLaidOut.ne_nil (h : AllLaidOut trees ts) (htrees : trees ≠ []) : ts ≠ [] := by
  cases trees with
  | nil => exact absurd rfl htrees
  | cons tree rest =>
    rw [AllLaidOut] at h
    obtain ⟨first, later, rfl, hfirst, -⟩ := h
    exact List.append_ne_nil_of_left_ne_nil hfirst.ne_nil later

theorem AllLaidOut.append (h : AllLaidOut trees ts) (hmore : AllLaidOut more us) :
    AllLaidOut (trees ++ more) (ts ++ us) := by
  induction trees generalizing ts with
  | nil =>
    rw [AllLaidOut] at h
    rwa [h]
  | cons tree rest ih =>
    rw [AllLaidOut] at h
    obtain ⟨first, later, rfl, hfirst, hlater⟩ := h
    rw [List.append_assoc]
    exact .cons hfirst (ih hlater)

theorem AllLaidOut.mem (h : AllLaidOut trees ts) : ∀ tree ∈ trees, ∃ inner, inner <:+: ts ∧
    tree.LaidOut inner := by
  induction trees generalizing ts with
  | nil => simp
  | cons tree rest ih =>
    rw [AllLaidOut] at h
    obtain ⟨first, later, rfl, hfirst, hlater⟩ := h
    intro other hother
    rcases List.mem_cons.1 hother with rfl | hrest
    · exact ⟨first, (List.prefix_append first later).isInfix, hfirst⟩
    · obtain ⟨inner, hinner, hlaid⟩ := ih hlater other hrest
      exact ⟨inner, hinner.trans (List.suffix_append first later).isInfix, hlaid⟩

end Layout

mutual

theorem LaidOut.map_node : ∀ {tree : SyntaxTree} {ts : List Token}, tree.LaidOut ts →
    ts.map (·.node) = tree.kinds
  | token _, _, ⟨t, hts, hkind⟩ => by rw [hts, kinds, List.map_singleton, hkind]
  | node _ _, _, ⟨_, hparts⟩ => by rw [kinds, hparts.map_node]

theorem AllLaidOut.map_node : ∀ {trees : List SyntaxTree} {ts : List Token}, AllLaidOut trees ts →
    ts.map (·.node) = kindsOfAll trees
  | [], _, hnone => by
    rw [AllLaidOut] at hnone
    rw [hnone, kindsOfAll, List.map_nil]
  | _ :: _, _, ⟨_, _, hts, hfirst, hlater⟩ => by
    rw [hts, kindsOfAll, List.map_append, hfirst.map_node, hlater.map_node]

end

mutual

/-- All that is in a tree is laid out on a part of its tokens. -/
theorem LaidOut.subtree : ∀ {tree : SyntaxTree} {ts : List Token}, tree.LaidOut ts →
    ∀ other ∈ tree.subtrees, ∃ inner, inner <:+: ts ∧ other.LaidOut inner
  | token _, ts, h, other, hother => by
    rw [subtrees, List.mem_singleton] at hother
    exact ⟨ts, List.infix_refl ts, hother ▸ h⟩
  | node _ _, ts, h, other, hother => by
    rw [subtrees] at hother
    rcases List.mem_cons.1 hother with rfl | hparts
    · exact ⟨ts, List.infix_refl ts, h⟩
    · rw [LaidOut] at h
      exact h.2.subtree other hparts

theorem AllLaidOut.subtree : ∀ {trees : List SyntaxTree} {ts : List Token}, AllLaidOut trees ts →
    ∀ other ∈ subtreesOfAll trees, ∃ inner, inner <:+: ts ∧ other.LaidOut inner
  | [], _, _, _, hother => by
    rw [subtreesOfAll] at hother
    exact absurd hother List.not_mem_nil
  | _ :: _, _, ⟨first, later, hts, hfirst, hlater⟩, other, hother => by
    rw [subtreesOfAll] at hother
    subst hts
    rcases List.mem_append.1 hother with hother | hother
    · obtain ⟨inner, hinner, hlaid⟩ := hfirst.subtree other hother
      exact ⟨inner, hinner.trans (List.prefix_append first later).isInfix, hlaid⟩
    · obtain ⟨inner, hinner, hlaid⟩ := hlater.subtree other hother
      exact ⟨inner, hinner.trans (List.suffix_append first later).isInfix, hlaid⟩

end

section Nesting

variable {tree : SyntaxTree} {trees : List SyntaxTree} {ts : List Token} {s : Span}

/-- The span of a tree goes from the start of one of its tokens to the end of one of them. -/
theorem LaidOut.span_ends (h : tree.LaidOut ts) (hs : tree.span? = some s) :
    ∃ first ∈ ts, ∃ last ∈ ts, s = ⟨first.span.start, last.span.stop⟩ := by
  cases tree with
  | token => cases hs
  | node span parts =>
    obtain rfl := Option.some.inj hs
    rw [LaidOut] at h
    obtain ⟨⟨first, last, hfirst, hlast, hspan⟩, -⟩ := h
    exact ⟨first, List.mem_of_head? hfirst, last, List.mem_of_getLast? hlast, hspan⟩

theorem AllLaidOut.span_ends (h : AllLaidOut trees ts) : ∀ s ∈ trees.filterMap span?,
    ∃ first ∈ ts, ∃ last ∈ ts, s = ⟨first.span.start, last.span.stop⟩ := by
  intro s hs
  obtain ⟨tree, htree, hspan⟩ := List.mem_filterMap.1 hs
  obtain ⟨inner, hinner, hlaid⟩ := h.mem tree htree
  obtain ⟨first, hfirst, last, hlast, heq⟩ := hlaid.span_ends hspan
  exact ⟨first, hinner.subset hfirst, last, hinner.subset hlast, heq⟩

/-- Trees that are laid out one after the other are apart. -/
theorem AllLaidOut.apart (h : AllLaidOut trees ts) (hin : InOrder ts) :
    (trees.filterMap span?).Pairwise fun a b => a.stop ≤ b.start := by
  induction trees generalizing ts with
  | nil => exact .nil
  | cons tree rest ih =>
    rw [AllLaidOut] at h
    obtain ⟨first, later, rfl, hfirst, hlater⟩ := h
    have hrest := ih hlater hin.right
    rw [List.filterMap_cons]
    cases hspan : tree.span? with
    | none => exact hrest
    | some s =>
      refine .cons ?_ hrest
      intro s' hs'
      obtain ⟨-, -, last, hlast, rfl⟩ := hfirst.span_ends hspan
      obtain ⟨next, hnext, -, -, rfl⟩ := hlater.span_ends s' hs'
      exact hin.stop_le_start last hlast next hnext

theorem AllLaidOut.encloses (h : AllLaidOut trees ts) (hin : InOrder ts) (hs : s.Covers ts) :
    s.Encloses (trees.filterMap span?) := by
  refine ⟨?_, h.apart hin⟩
  intro s' hs'
  obtain ⟨start, stop, hstart, hstop, rfl⟩ := hs
  obtain ⟨first, hfirst, last, hlast, rfl⟩ := h.span_ends s' hs'
  exact ⟨hin.head_le hstart first hfirst, hin.le_last hstop last hlast⟩

end Nesting

mutual

/-- On tokens that are in order, all nodes are inside the node they are part of. -/
theorem LaidOut.nested : ∀ {tree : SyntaxTree} {ts : List Token}, tree.LaidOut ts → InOrder ts →
    tree.Nested
  | token _, _, _, _ => by rw [Nested]; trivial
  | node _ _, _, ⟨hspan, hparts⟩, hin => by
    rw [Nested]
    exact ⟨hparts.encloses hin hspan, hparts.nested hin⟩

theorem AllLaidOut.nested : ∀ {trees : List SyntaxTree} {ts : List Token}, AllLaidOut trees ts →
    InOrder ts → AllNested trees
  | [], _, _, _ => by rw [AllNested]; trivial
  | _ :: _, _, ⟨_, _, hts, hfirst, hlater⟩, hin => by
    subst hts
    rw [AllNested]
    exact ⟨hfirst.nested hin.left, hlater.nested hin.right⟩

end

section Maps

variable (f : Span → Span)

mutual

theorem kinds_mapSpans : ∀ tree : SyntaxTree, (tree.mapSpans f).kinds = tree.kinds
  | token _ => rfl
  | node _ parts => by rw [mapSpans, kinds, kinds, kindsOfAll_mapSpans parts]

theorem kindsOfAll_mapSpans : ∀ trees : List SyntaxTree,
    kindsOfAll (mapSpansOfAll f trees) = kindsOfAll trees
  | [] => rfl
  | tree :: more => by
    rw [mapSpansOfAll, kindsOfAll, kindsOfAll, kinds_mapSpans tree, kindsOfAll_mapSpans more]

end

mutual

/-- Where a tree is laid out there is no other one that differs from it in its spans only. -/
theorem LaidOut.unique : ∀ {tree other : SyntaxTree} {ts : List Token}, tree.LaidOut ts →
    other.LaidOut ts → tree.mapSpans f = other.mapSpans f → tree = other
  | token _, token _, _, _, _, hsame => hsame
  | token _, node _ _, _, _, _, hsame => by cases hsame
  | node _ _, token _, _, _, _, hsame => by cases hsame
  | node _ parts, node _ parts', _, ⟨hspan, hparts⟩, ⟨hspan', hparts'⟩, hsame => by
    rw [mapSpans, mapSpans, node.injEq] at hsame
    rw [hspan.unique hspan', hparts.unique hparts' hsame.2]

theorem AllLaidOut.unique : ∀ {trees others : List SyntaxTree} {ts : List Token},
    AllLaidOut trees ts → AllLaidOut others ts →
      mapSpansOfAll f trees = mapSpansOfAll f others → trees = others
  | [], [], _, _, _, _ => rfl
  | [], _ :: _, _, _, _, hsame => by cases hsame
  | _ :: _, [], _, _, _, hsame => by cases hsame
  | tree :: more, other :: more', _, ⟨first, later, hts, hfirst, hlater⟩,
      ⟨first', later', hts', hfirst', hlater'⟩, hsame => by
    rw [mapSpansOfAll, mapSpansOfAll, List.cons.injEq] at hsame
    -- The same shape takes the same number of tokens.
    have hkinds : tree.kinds = other.kinds := by
      rw [← kinds_mapSpans f tree, hsame.1, kinds_mapSpans]
    have hlength : first.length = first'.length := by
      have hcounts := congrArg List.length hkinds
      rwa [← hfirst.map_node, ← hfirst'.map_node, List.length_map, List.length_map] at hcounts
    obtain ⟨rfl, rfl⟩ := List.append_inj (hts.symm.trans hts') hlength
    rw [hfirst.unique hfirst' hsame.1, hlater.unique hlater' hsame.2]

end

end Maps

mutual

/-- Tokens that stand further on have their tree further on. -/
theorem LaidOut.shift (distance : Nat) : ∀ {tree : SyntaxTree} {ts : List Token}, tree.LaidOut ts →
    (tree.mapSpans (·.shift distance)).LaidOut (ts.map (Token.shifted distance))
  | token _, _, ⟨t, hts, hkind⟩ => by
    subst hts
    exact ⟨t.shifted distance, rfl, hkind⟩
  | node _ _, _, ⟨hspan, hparts⟩ => by
    rw [mapSpans, LaidOut]
    exact ⟨hspan.shift distance, hparts.shift distance⟩

theorem AllLaidOut.shift (distance : Nat) : ∀ {trees : List SyntaxTree} {ts : List Token},
    AllLaidOut trees ts →
      AllLaidOut (mapSpansOfAll (·.shift distance) trees) (ts.map (Token.shifted distance))
  | [], _, hnone => by
    rw [AllLaidOut] at hnone
    rw [hnone]
    exact .nil
  | _ :: _, _, ⟨_, _, hts, hfirst, hlater⟩ => by
    rw [hts, List.map_append, mapSpansOfAll]
    exact .cons (hfirst.shift distance) (hlater.shift distance)

end

end SyntaxTree

end Source

end TestBench
