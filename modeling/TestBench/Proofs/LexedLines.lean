import TestBench.Proofs.LexedParts

/-!
Lines of a text. No lexeme of an accepted text goes on after a line feed, so a
text is cut into lexemes line by line: it is accepted exactly if its lines are,
each alone, and the tokens of a line are the same wherever it stands, but for
their places.
-/
namespace TestBench.Token

/-- A lexeme that begins with a line feed is that line feed. -/
theorem steady_newline {kind : Option TokenKind} {more rest : List Char}
    (h : Steady kind '\n' more rest) : kind = none ∧ more = [] := by
  have hlexeme := h 0 rest (.refl kind rest)
  have hblank : lexeme 0 '\n' (more ++ rest) = ⟨none, [], 0 + 1, more ++ rest⟩ := rfl
  rw [hblank] at hlexeme
  injection hlexeme with hkind _ _ hrest
  exact ⟨hkind.symm, List.self_eq_append_left.1 hrest.symm⟩

namespace Lexed

variable {parts : List Part} {a b : List Char}

/-- Only the line feed itself has a line feed in it. -/
theorem eq_newline (h : Lexed parts) : ∀ p ∈ parts, '\n' ∈ p.text → p = ⟨none, ['\n']⟩ := by
  induction h with
  | nil => simp
  | @cons kind c more parts hnewline hsteady hparts ih =>
    intro p hp hmem
    rcases List.mem_cons.1 hp with rfl | hp
    · rcases List.mem_cons.1 hmem with rfl | hmem
      · obtain ⟨rfl, rfl⟩ := steady_newline hsteady
        rfl
      · exact absurd hmem hnewline
    · exact ih p hp hmem

/-- At a line feed the parts come apart. -/
theorem split_newline (h : Lexed parts) (htexts : texts parts = a ++ '\n' :: b) :
    ∃ front later, parts = front ++ ⟨none, ['\n']⟩ :: later ∧
      texts front = a ∧ texts later = b := by
  induction h generalizing a with
  | nil => simp at htexts
  | @cons kind c more parts hnewline hsteady hparts ih =>
    rw [texts_cons, List.cons_append] at htexts
    cases a with
    | nil =>
      obtain ⟨rfl, hrest⟩ := List.cons.inj htexts
      obtain ⟨rfl, rfl⟩ := steady_newline hsteady
      exact ⟨[], parts, rfl, rfl, hrest⟩
    | cons d a =>
      obtain ⟨rfl, hrest⟩ := List.cons.inj htexts
      -- The first part ends before the line feed, because it has none after its first character.
      have hwithin : ∃ between, a = more ++ between ∧ texts parts = between ++ '\n' :: b := by
        rcases List.append_eq_append_iff.1 hrest with ⟨between, ha, hparts⟩ | ⟨beyond, hmore, hb⟩
        · exact ⟨between, ha, hparts⟩
        · cases beyond with
          | nil => exact ⟨[], by simpa using hmore.symm, hb.symm⟩
          | cons e beyond =>
            obtain ⟨rfl, -⟩ := List.cons.inj hb
            exact absurd (by simp [hmore]) hnewline
      obtain ⟨between, rfl, hlater⟩ := hwithin
      obtain ⟨front, later, rfl, hfront, hb⟩ := ih hlater
      exact ⟨⟨kind, c :: more⟩ :: front, later, rfl, by simp [hfront], hb⟩

/-- Lines are put beside each other with a line feed between them. -/
theorem join_newline {front later : List Part} (hfront : Lexed front) (hlater : Lexed later) :
    Lexed (front ++ ⟨none, ['\n']⟩ :: later) := by
  have hfeed : Lexed (⟨none, ['\n']⟩ :: later) :=
    .cons List.not_mem_nil (steady_blank rfl _) hlater
  rw [← List.append_nil front] at hfront
  exact hfront.beside hfeed fun p _ => replaces_newline p.kind _ _

end Lexed

variable {a b : List Char} {tokens : List Token}

/-- The tokens of two lines are those of the first without its end and, moved behind the first line
and its line feed, those of the second. -/
theorem scan_newline_iff : scan (a ++ '\n' :: b) = .ok tokens ↔
    ∃ read later, scan a = .ok (read ++ [⟨.endOfFile, .empty (byteLength a)⟩]) ∧
      scan b = .ok later ∧ tokens = read ++ later.map (shifted (byteLength a + 1)) := by
  have htokens : ∀ front later : List Part, texts front = a → texts later = b →
      tokensFrom 0 (front ++ ⟨none, ['\n']⟩ :: later) ++
        [⟨.endOfFile, .empty (byteLength (a ++ '\n' :: b))⟩] =
      tokensFrom 0 front ++ (tokensFrom 0 later ++
        [(⟨.endOfFile, .empty (byteLength b)⟩ : Token)]).map (shifted (byteLength a + 1)) := by
    rintro front later rfl rfl
    have hfeed : byteLength ['\n'] = 1 := rfl
    have hnewline : '\n'.utf8Size = 1 := rfl
    have hend : byteLength (texts front) + (1 + byteLength (texts later)) =
        byteLength (texts later) + (byteLength (texts front) + 1) := by omega
    rw [tokensFrom_append, tokensFrom, hfeed, Nat.zero_add, ← Nat.zero_add (_ + 1),
      tokensFrom_shift, List.map_append, byteLength_append, byteLength_cons, hnewline, hend]
    simp [shifted, Span.shift, Span.empty]
  constructor
  · intro h
    obtain ⟨parts, htexts, hparts, rfl⟩ := Lexed.scan_eq_ok_iff.1 h
    obtain ⟨front, later, rfl, hfront, hlater⟩ := hparts.split_newline htexts
    refine ⟨tokensFrom 0 front, _, ?_, Lexed.scan_eq_ok_iff.2 ⟨later, hlater, ?_, rfl⟩, ?_⟩
    · exact Lexed.scan_eq_ok_iff.2 ⟨front, hfront, hparts.front_part, rfl⟩
    · cases hparts.later_part with
      | cons _ _ hrest => exact hrest
    · exact htokens front later hfront hlater
  · rintro ⟨read, bs, ha, hb, rfl⟩
    obtain ⟨front, hfront, hlexed, hread⟩ := Lexed.scan_eq_ok_iff.1 ha
    obtain ⟨later, hlater, hlexed', rfl⟩ := Lexed.scan_eq_ok_iff.1 hb
    obtain rfl := List.append_cancel_right hread
    refine Lexed.scan_eq_ok_iff.2 ⟨_, ?_, hlexed.join_newline hlexed', ?_⟩
    · rw [texts_append, texts_cons, hfront, hlater]
      rfl
    · exact (htokens front later hfront hlater).symm

/-- The tokens before the end of the file are in the text. -/
theorem stop_le_of_scan {read : List Token} {last : Token} (h : scan a = .ok (read ++ [last])) :
    ∀ t ∈ read, t.span.stop ≤ byteLength a := by
  obtain ⟨parts, rfl, -, hread⟩ := Lexed.scan_eq_ok_iff.1 h
  obtain ⟨rfl, -⟩ := List.append_inj' hread rfl
  intro t ht
  have hle := (tokensFrom_within t ht).2
  omega

/-- Of two lists of tokens, both have the same ones up to `start`, and after that the first has
those after `stop` that the second has after `stop'`. -/
def SameOutside (start stop stop' : Nat) (tokens tokens' : List Token) : Prop :=
  ∃ front inside inside' later : List Token,
    tokens = front ++ inside ++ later.map (shifted stop) ∧
    tokens' = front ++ inside' ++ later.map (shifted stop') ∧
    (∀ t ∈ front, t.span.stop ≤ start) ∧
    (∀ t ∈ inside, start < t.span.start ∧ t.span.stop < stop) ∧
    ∀ t ∈ inside', start < t.span.start ∧ t.span.stop < stop'

/-- Another line in its place changes the tokens of one line only. -/
theorem scan_edited {line line' : List Char} {tokens' : List Token}
    (h : scan (a ++ '\n' :: (line ++ '\n' :: b)) = .ok tokens)
    (h' : scan (a ++ '\n' :: (line' ++ '\n' :: b)) = .ok tokens') :
    SameOutside (byteLength a) (byteLength line + 1 + (byteLength a + 1))
      (byteLength line' + 1 + (byteLength a + 1)) tokens tokens' := by
  have hinside : ∀ (cs : List Char) (read : List Token) (last : Token),
      scan cs = .ok (read ++ [last]) → ∀ t ∈ read.map (shifted (byteLength a + 1)),
        byteLength a < t.span.start ∧ t.span.stop < byteLength cs + 1 + (byteLength a + 1) := by
    intro cs read last hscan t ht
    obtain ⟨s, hs, rfl⟩ := List.mem_map.1 ht
    have hstop := stop_le_of_scan hscan s hs
    simp only [shifted, Span.shift]
    omega
  have hshift : ∀ (n m : Nat) (ts : List Token),
      (ts.map (shifted n)).map (shifted m) = ts.map (shifted (n + m)) := by
    intro n m ts
    simp [shifted, Span.shift, Nat.add_assoc]
  obtain ⟨front, more, ha, hmore, rfl⟩ := scan_newline_iff.1 h
  obtain ⟨inside, later, hline, hb, rfl⟩ := scan_newline_iff.1 hmore
  obtain ⟨front', more', ha', hmore', rfl⟩ := scan_newline_iff.1 h'
  obtain ⟨inside', later', hline', hb', rfl⟩ := scan_newline_iff.1 hmore'
  obtain rfl : front = front' := List.append_cancel_right (Except.ok.inj (ha.symm.trans ha'))
  obtain rfl : later = later' := Except.ok.inj (hb.symm.trans hb')
  refine ⟨front, inside.map (shifted (byteLength a + 1)), inside'.map (shifted (byteLength a + 1)),
    later, ?_, ?_, stop_le_of_scan ha, hinside line inside _ hline, hinside line' inside' _ hline'⟩
  · rw [List.map_append, hshift, List.append_assoc]
  · rw [List.map_append, hshift, List.append_assoc]

/-- Two lines are accepted together exactly if each of them is alone. The tokens are those of the
first line and, moved behind it, those of the second. -/
theorem scan_lines (a b : List Char) :
    ((∃ tokens, scan (a ++ '\n' :: b) = .ok tokens) ↔
      (∃ tokens, scan a = .ok tokens) ∧ ∃ tokens, scan b = .ok tokens) ∧
    (∀ first later, scan a = .ok first → scan b = .ok later →
      ∃ read, first = read ++ [⟨.endOfFile, .empty (byteLength a)⟩] ∧
        scan (a ++ '\n' :: b) = .ok (read ++ later.map (shifted (byteLength a + 1)))) ∧
    (∀ tokens, scan (a ++ '\n' :: b) = .ok tokens → ∃ parts, texts parts = a ++ '\n' :: b ∧
      Lexed parts ∧ (∀ p ∈ parts, '\n' ∈ p.text → p = ⟨none, ['\n']⟩) ∧
        tokens = tokensFrom 0 parts ++ [⟨.endOfFile, .empty (byteLength (a ++ '\n' :: b))⟩]) ∧
    ∀ line line' tokens tokens', scan (a ++ '\n' :: (line ++ '\n' :: b)) = .ok tokens →
      scan (a ++ '\n' :: (line' ++ '\n' :: b)) = .ok tokens' →
        SameOutside (byteLength a) (byteLength line + 1 + (byteLength a + 1))
          (byteLength line' + 1 + (byteLength a + 1)) tokens tokens' := by
  have hjoin : ∀ first later, scan a = .ok first → scan b = .ok later →
      ∃ read, first = read ++ [⟨.endOfFile, .empty (byteLength a)⟩] ∧
        scan (a ++ '\n' :: b) = .ok (read ++ later.map (shifted (byteLength a + 1))) := by
    intro first later ha hb
    obtain ⟨parts, -, -, rfl⟩ := Lexed.scan_eq_ok_iff.1 ha
    exact ⟨_, rfl, scan_newline_iff.2 ⟨_, later, ha, hb, rfl⟩⟩
  refine ⟨⟨?_, ?_⟩, hjoin, ?_, ?_⟩
  · rintro ⟨tokens, h⟩
    obtain ⟨read, later, ha, hb, -⟩ := scan_newline_iff.1 h
    exact ⟨⟨_, ha⟩, ⟨later, hb⟩⟩
  · rintro ⟨⟨first, ha⟩, later, hb⟩
    obtain ⟨read, -, h⟩ := hjoin first later ha hb
    exact ⟨_, h⟩
  · intro tokens h
    obtain ⟨parts, htexts, hparts, htokens⟩ := Lexed.scan_eq_ok_iff.1 h
    exact ⟨parts, htexts, hparts, hparts.eq_newline, htokens⟩
  · intro line line' tokens tokens' h h'
    exact scan_edited h h'

end TestBench.Token
