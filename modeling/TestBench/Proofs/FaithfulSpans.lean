import TestBench.Proofs.LaidPrograms
import TestBench.Proofs.ReadExpressions
import TestBench.Proofs.TreeSpans

/-!
The spans of accepted programs. They are those of syntax trees that are laid out on
the tokens of the text. What stands under the span of an expression is cut from the
text between two lexemes, so it has the tokens of the expression and no others; read
alone, these give an expression that differs from the one in the text in its spans
only, and on the same tokens there is but one such expression.
-/
namespace TestBench

namespace Token

section Slices

variable {pos : Nat} {parts : List Part} {front back ts : List Token} {t : Token} {s : Span}

theorem tokensFrom_singleton (pos : Nat) (p : Part) : tokensFrom pos [p] = [] ∨
    ∃ u, tokensFrom pos [p] = [u] ∧ u.span = ⟨pos, pos + byteLength p.text⟩ := by
  cases hkind : p.kind with
  | none => exact Or.inl (by simp [tokensFrom, hkind])
  | some kind => exact Or.inr ⟨⟨kind, _⟩, by simp [tokensFrom, hkind], rfl⟩

/-- One of the parts is the token, and those before it have the tokens before it. -/
theorem tokensFrom_split (h : tokensFrom pos parts = front ++ t :: back) :
    ∃ before part after, parts = before ++ part :: after ∧ tokensFrom pos before = front ∧
      t.span.start = pos + byteLength (texts before) ∧
      t.span.stop = t.span.start + byteLength part.text ∧ tokensFrom t.span.start [part] = [t] := by
  induction parts generalizing pos front with
  | nil => simp [tokensFrom] at h
  | cons p rest ih =>
    rw [← List.singleton_append, tokensFrom_append] at h
    have hlater : ∀ front', tokensFrom (pos + byteLength (texts [p])) rest = front' ++ t :: back →
        tokensFrom pos [p] ++ front' = front → ∃ before part after,
          p :: rest = before ++ part :: after ∧ tokensFrom pos before = front ∧
          t.span.start = pos + byteLength (texts before) ∧
          t.span.stop = t.span.start + byteLength part.text ∧
          tokensFrom t.span.start [part] = [t] := by
      intro front' hrest hfront
      obtain ⟨before, part, after, rfl, hbefore, hstart, hpart⟩ := ih hrest
      refine ⟨p :: before, part, after, rfl, ?_, ?_, hpart⟩
      · rw [← hfront, ← hbefore, ← List.singleton_append, tokensFrom_append]
      · simp [hstart, byteLength_append, Nat.add_assoc]
    rcases tokensFrom_singleton pos p with hnone | ⟨u, hone, hspan⟩
    · rw [hnone] at h hlater
      exact hlater front h rfl
    rw [hone] at h hlater
    cases front with
    | nil =>
      obtain ⟨rfl, -⟩ := List.cons.inj h
      refine ⟨[], p, rest, rfl, rfl, ?_, ?_, ?_⟩
      · rw [hspan]
        rfl
      · rw [hspan]
      · rw [hspan, hone]
    | cons first more =>
      obtain ⟨rfl, hrest⟩ := List.cons.inj h
      exact hlater more hrest rfl

/-- The parts under a span that covers some of the tokens have these and no others. -/
theorem tokensFrom_slice (h : tokensFrom pos parts = front ++ ts ++ back) (hs : s.Covers ts) :
    ∃ before slice after, parts = before ++ slice ++ after ∧
      s.start = pos + byteLength (texts before) ∧
      s.stop = s.start + byteLength (texts slice) ∧ tokensFrom s.start slice = ts := by
  obtain ⟨first, last, hfirst, hlast, rfl⟩ := hs
  obtain ⟨more, rfl⟩ := List.head?_eq_some_iff.1 hfirst
  rw [List.append_assoc, List.cons_append] at h
  obtain ⟨before, part, later, rfl, hbefore, hstart, -, -⟩ := tokensFrom_split h
  rw [tokensFrom_append, hbefore, ← hstart, ← List.cons_append] at h
  have hrest := List.append_cancel_left h
  obtain ⟨most, hmost⟩ := List.getLast?_eq_some_iff.1 hlast
  rw [hmost, List.append_assoc] at hrest
  obtain ⟨inner, final, after, hlater, hinner, hbegin, hend, htoken⟩ := tokensFrom_split hrest
  refine ⟨before, inner ++ [final], after, ?_, hstart, ?_, ?_⟩
  · rw [hlater]
    simp
  · rw [hend, hbegin, texts_append, byteLength_append, texts_cons, texts_nil, List.append_nil,
      Nat.add_assoc]
  · rw [tokensFrom_append, hinner, ← hbegin, htoken, hmost]

/-- Under a span that covers tokens of a text stands a text with these tokens. -/
theorem scan_slice {source : List Char} {tokens : List Token} {last : Token}
    (h : scan source = .ok (tokens ++ [last])) (hts : ts <:+: tokens) (hs : s.Covers ts) :
    ∃ before text after inner, s.Holds source before text after ∧
      scan text = .ok (inner ++ [⟨.endOfFile, .empty (byteLength text)⟩]) ∧
      inner.map (shifted s.start) = ts := by
  obtain ⟨parts, rfl, hparts, htokens⟩ := Lexed.scan_eq_ok_iff.1 h
  obtain ⟨rfl, -⟩ := List.append_inj' htokens rfl
  obtain ⟨front, back, hfront⟩ := hts
  obtain ⟨before, slice, after, rfl, hstart, hstop, hslice⟩ := tokensFrom_slice hfront.symm hs
  rw [Nat.zero_add] at hstart
  refine ⟨texts before, texts slice, texts after, tokensFrom 0 slice, ⟨?_, hstart, ?_⟩,
    Lexed.scan_eq_ok_iff.2 ⟨slice, rfl, ?_, rfl⟩, ?_⟩
  · rw [texts_append, texts_append]
  · rw [hstop, hstart]
  · rw [List.append_assoc] at hparts
    exact hparts.later_part.front_part
  · rw [← tokensFrom_shift, Nat.zero_add, hslice]

end Slices

/-- The tokens of a text are in order, and only the last is the end of the file. -/
theorem inOrder_of_scan {source : List Char} {tokens : List Token} (h : scan source = .ok tokens) :
    ∃ read, tokens = read ++ [⟨.endOfFile, .empty (byteLength source)⟩] ∧
      (∀ t ∈ read, t.node ≠ .endOfFile) ∧ InOrder tokens := by
  obtain ⟨read, rfl, htiles⟩ := tiles_of_scan h
  have hplaced : ∀ t ∈ read, t.node ≠ .endOfFile ∧ t.span.Within source := by
    intro t ht
    obtain ⟨-, before, text, after, hholds, hspells⟩ := htiles.token_holds t ht
    exact ⟨hspells.kind_ne, hholds.within⟩
  refine ⟨read, rfl, fun t ht => (hplaced t ht).1, ?_, ?_⟩
  · refine List.forall_mem_append.2 ⟨fun t ht => (hplaced t ht).2.start_le_stop, ?_⟩
    exact List.forall_mem_singleton.2 (Nat.le_refl _)
  · refine List.pairwise_append.2 ⟨htiles.pairwise, List.pairwise_singleton _ _, ?_⟩
    intro t ht u hu
    rw [List.mem_singleton.1 hu]
    exact (hplaced t ht).2.stop.le

end Token

namespace Source

open Token (InOrder)
open SyntaxTree (AllLaidOut AllNested)

/-- An expression that can be read back is read from its tokens before the end of a file, with a
tree that is laid out on all of them. -/
theorem Expr.Readable.reads_tokens {e : Expr} {ts : List Token} {last : Token}
    (h : e.Readable maxNesting) (hts : ts.map (·.node) = e.kinds) (hlast : last.node = .endOfFile)
    (hin : InOrder (ts ++ [last])) :
    ∃ found d, Level.outermost.expression (Cursor.start (ts ++ [last])) = (.ok found, d) ∧
      d.ahead = [last] ∧ d.faults = [] ∧ found.bare = e.bare ∧ found.tree.LaidOut ts := by
  have hstart : (Cursor.start (ts ++ [last])).At (e.kinds ++ [.endOfFile]) 0 := by
    refine ⟨?_, rfl, rfl⟩
    rw [← hts, ← hlast]
    exact List.map_append
  have hunbound : ∀ least, Unbound least [.endOfFile] := by
    intro least op hop
    cases hop
  have hleaves : Leaves [.endOfFile] := ⟨by simp, by simp⟩
  obtain ⟨found, d, hrun, hbare, hd⟩ := e.reads.2.binary e.binds_one (fun n _ => hunbound (n + 1))
    (hunbound 1) ⟨h.grouped, h.levels, Nat.le_of_eq (Nat.zero_add _), hleaves⟩ _ hstart
  obtain ⟨reported, hfaults, hlays⟩ := (Level.withRoom_lays maxNesting).binary 1 _ _ _ hrun
  obtain ⟨read, hpasses, hlaid⟩ := hlays found rfl (hfaults.symm.trans hd.faults)
  -- Only the end of the file is left, so all other tokens were read.
  obtain ⟨other, hother⟩ : ∃ other, d.ahead = [other] := by
    have hlength := hd.length
    exact List.length_eq_one_iff.1 hlength
  have hahead : ts ++ [last] = read ++ [other] := hother ▸ hpasses.ahead
  obtain ⟨rfl, hsame⟩ := List.append_inj' hahead rfl
  exact ⟨found, d, hrun, hother.trans hsame.symm, hd.faults, hbare, hlaid hin⟩

namespace Expr

/-- The text under the span of the expression, read alone, is the expression at its start, with
nothing left over. -/
def ReadsBack (source : List Char) (e : Expr) : Prop :=
  ∃ before text after tokens last found d, e.span.Holds source before text after ∧
    Token.scan text = .ok (tokens ++ [last]) ∧ last.node = .endOfFile ∧
    Level.outermost.expression (Cursor.start (tokens ++ [last])) = (.ok found, d) ∧
    d.ahead = [last] ∧ d.faults = [] ∧ found.mapSpans (·.shift e.span.start) = e

theorem Readable.readsBack {source : List Char} {tokens ts : List Token} {last : Token} {e : Expr}
    (h : e.Readable maxNesting) (hscan : Token.scan source = .ok (tokens ++ [last]))
    (hts : ts <:+: tokens) (hlaid : e.tree.LaidOut ts) : e.ReadsBack source := by
  obtain ⟨before, text, after, inner, hholds, hslice, hshifted⟩ :=
    Token.scan_slice hscan hts (covers_of_laidOut hlaid)
  obtain ⟨read, hread, -, hin⟩ := Token.inOrder_of_scan hslice
  have hkinds : inner.map (·.node) = e.kinds := by
    rw [← map_node_of_laidOut hlaid, ← hshifted, List.map_map]
    rfl
  obtain ⟨found, d, hrun, hahead, hfaults, hbare, hfound⟩ := h.reads_tokens hkinds rfl hin
  refine ⟨before, text, after, inner, _, found, d, hholds, hslice, rfl, hrun, hahead, hfaults, ?_⟩
  have hplaced := hfound.shift e.span.start
  rw [← tree_mapSpans, hshifted] at hplaced
  exact eq_of_laidOut hplaced hlaid (by rw [bare_mapSpans, hbare])

end Expr

namespace Program

/-- All expressions of an accepted program can be read back. -/
theorem readable_of_ofTokens {tokens : List Token} {p : Program} (h : ofTokens tokens = .ok p) :
    ∀ e ∈ p.nodes, e.Readable maxNesting := by
  obtain ⟨read, rest, -, -, -, -, hclasses⟩ := readAs_of_ofTokens h
  obtain ⟨hexpressions, hbodies⟩ := grouped_of_classes hclasses
  obtain ⟨hlevels, hroom⟩ := within_levels h
  intro inner hinner
  rcases List.mem_append.1 hinner with hinner | hinner
  · obtain ⟨e, he, hinner⟩ := List.mem_flatMap.1 hinner
    have hread : e.Readable maxNesting := ⟨hexpressions e he, hlevels e he⟩
    exact hread.nodes inner hinner
  · obtain ⟨body, hbody, hinner⟩ := List.mem_flatMap.1 hinner
    have hbodyRoom := hroom body hbody
    exact Stmt.AllGrouped.nodes (hbodies body hbody) (by omega) inner hinner

/-- The trees of an accepted text lie on all its tokens, in order and one inside another, and what
stands under the span of an expression is read alone as this expression. -/
theorem faithful_of_ofSource {source : List Char} {p : Program} (h : ofSource source = .ok p) :
    (∃ tokens trees, Token.scan source =
        .ok (tokens ++ [⟨.endOfFile, .empty (byteLength source)⟩]) ∧
      p.HasTrees trees ∧ (SyntaxTree.spansOfAll trees).Perm p.spans ∧
      AllLaidOut trees tokens ∧ AllNested trees ∧ (trees.filterMap SyntaxTree.span?).Pairwise
        fun a b => a.stop ≤ b.start) ∧
    ∀ e ∈ p.nodes, e.ReadsBack source := by
  unfold ofSource at h
  split at h
  · cases h
  · next all hscan =>
    split at h
    · cases h
    · next program hprogram =>
      obtain rfl := Except.ok.inj h
      obtain ⟨tokens, rfl, hread, hin⟩ := Token.inOrder_of_scan hscan
      obtain ⟨trees, htrees, hlaid⟩ := laidOn_of_ofTokens hread rfl hin hprogram
      refine ⟨⟨tokens, trees, hscan, htrees, htrees.spans_perm, hlaid, hlaid.nested hin.left,
        hlaid.apart hin.left⟩, ?_⟩
      intro e he
      obtain ⟨ts, hts, htree⟩ := hlaid.subtree e.tree (htrees.mem_subtrees e he)
      exact (readable_of_ofTokens hprogram e he).readsBack hscan hts htree

end Program

/-- A text with attributes, a conditional after `else`, a call without arguments, operators that
bind differently, parentheses and a character of two bytes. -/
def fieldText : List Char :=
  ("use a.b; [Slow()] class A \x7b let n = (1 + 2) * 3; [Even(-1)] fn f(x) \x7b " ++
    "if x < n - 1 - x \x7b\x7d else if !a.g() \x7b return \"é\" + f(x); \x7d \x7d \x7d").toList

theorem faithful_of_ofSource_field : ∃ p, Program.ofSource fieldText = .ok p ∧
    p.nodes.length = 21 ∧
    (∃ tokens trees, Token.scan fieldText =
        .ok (tokens ++ [⟨.endOfFile, .empty (byteLength fieldText)⟩]) ∧
      p.HasTrees trees ∧ (SyntaxTree.spansOfAll trees).Perm p.spans ∧
      AllLaidOut trees tokens ∧ AllNested trees ∧ (trees.filterMap SyntaxTree.span?).Pairwise
        fun a b => a.stop ≤ b.start) ∧
    ∀ e ∈ p.nodes, e.ReadsBack fieldText := by
  have hread : (Program.ofSource fieldText).toOption.map (·.nodes.length) = some 21 := by
    decide +kernel
  cases hp : Program.ofSource fieldText with
  | error fault =>
    rw [hp] at hread
    cases hread
  | ok p =>
    rw [hp] at hread
    exact ⟨p, rfl, Option.some.inj hread, Program.faithful_of_ofSource hp⟩

end Source

end TestBench
