import Mathlib.Data.List.Basic
import Mathlib.Data.List.Infix
import Mathlib.Data.List.TakeWhile
import TestBench.Verdict.Report

/-!
Texts that are printed line by line. A printed line is read back as the lines
between its line feeds, each without a carriage return at its end; neither that
nor blanks in front change what is left of the line when it is trimmed, or which
texts without blanks at their ends stand in it.
-/
namespace TestBench

namespace Path

theorem splitAt_ne_nil (separator : Char) (cs : List Char) : splitAt separator cs ≠ [] := by
  cases cs with
  | nil => simp [splitAt]
  | cons c rest =>
    unfold splitAt
    split
    · exact List.cons_ne_nil _ _
    · split
      · exact List.cons_ne_nil _ _
      · exact List.cons_ne_nil _ _

theorem splitAt_append (separator : Char) (cs rest : List Char) :
    splitAt separator (cs ++ separator :: rest) =
      splitAt separator cs ++ splitAt separator rest := by
  induction cs with
  | nil => simp [splitAt]
  | cons c cs ih =>
    by_cases hc : c = separator
    · simp [splitAt, hc, ih]
    · cases hsplit : splitAt separator cs with
      | nil => exact absurd hsplit (splitAt_ne_nil separator cs)
      | cons piece more => simp [splitAt, hc, ih, hsplit]

theorem splitAt_of_not_mem {separator : Char} {cs : List Char} (h : separator ∉ cs) :
    splitAt separator cs = [cs] := by
  induction cs with
  | nil => rfl
  | cons c cs ih =>
    obtain ⟨hne, hrest⟩ := not_or.1 (mt List.mem_cons.2 h)
    simp [splitAt, Ne.symm hne, ih hrest]

theorem not_mem_splitAt {separator : Char} {cs piece : List Char}
    (h : piece ∈ splitAt separator cs) : separator ∉ piece := by
  induction cs generalizing piece with
  | nil =>
    obtain rfl : piece = [] := by simpa [splitAt] using h
    exact List.not_mem_nil
  | cons c rest ih =>
    by_cases hc : c = separator
    · rw [splitAt, if_pos hc] at h
      rcases List.mem_cons.1 h with rfl | hrest
      · exact List.not_mem_nil
      · exact ih hrest
    · cases hsplit : splitAt separator rest with
      | nil => exact absurd hsplit (splitAt_ne_nil separator rest)
      | cons first more =>
        rw [splitAt, if_neg hc, hsplit] at h
        rcases List.mem_cons.1 h with rfl | hmore
        · have hfirst := ih (hsplit ▸ List.mem_cons_self)
          exact fun hmem => (List.mem_cons.1 hmem).elim (fun heq => hc heq.symm) hfirst
        · exact ih (hsplit ▸ List.mem_cons_of_mem _ hmore)

/-- What was joined is taken apart again. -/
theorem splitAt_intercalate {separator : Char} {pieces : List (List Char)} (hne : pieces ≠ [])
    (h : ∀ piece ∈ pieces, separator ∉ piece) :
    splitAt separator ([separator].intercalate pieces) = pieces := by
  induction pieces with
  | nil => exact absurd rfl hne
  | cons piece rest ih =>
    obtain ⟨hpiece, hrest⟩ := List.forall_mem_cons.1 h
    cases rest with
    | nil => rw [List.intercalate_singleton, splitAt_of_not_mem hpiece]
    | cons next more =>
      rw [List.intercalate_cons_cons, List.append_assoc, List.singleton_append, splitAt_append,
        splitAt_of_not_mem hpiece, ih (List.cons_ne_nil next more) hrest, List.singleton_append]

end Path

namespace Text

theorem ofPieces_append (pieces more : List (List Char)) (hmore : more ≠ []) :
    ofPieces (pieces ++ more) = pieces.map withoutReturn ++ ofPieces more := by
  induction pieces with
  | nil => rfl
  | cons piece rest ih =>
    obtain ⟨next, later, hnext⟩ := List.exists_cons_of_ne_nil
      (List.append_ne_nil_of_right_ne_nil rest hmore)
    rw [List.cons_append, hnext, ofPieces, ← hnext, ih, List.map_cons, List.cons_append]

/-- The lines that a printed line is read back as. -/
def printed (line : String) : List (List Char) :=
  (Path.splitAt '\n' line.toList).map withoutReturn

theorem lines_append (cs rest : List Char) :
    lines (cs ++ '\n' :: rest) = (Path.splitAt '\n' cs).map withoutReturn ++ lines rest := by
  rw [lines, Path.splitAt_append, ofPieces_append _ _ (Path.splitAt_ne_nil _ _)]
  rfl

/-- A text of lines is read back line by line. -/
theorem lines_join (printedLines : List String) :
    lines (String.join (printedLines.map (· ++ "\n"))).toList = printedLines.flatMap printed := by
  induction printedLines with
  | nil => rfl
  | cons line rest ih =>
    have hfirst : (String.join ((line :: rest).map (· ++ "\n"))).toList =
        line.toList ++ '\n' :: (String.join (rest.map (· ++ "\n"))).toList := by
      simp [String.join_cons]
    rw [hfirst, lines_append, ih, List.flatMap_cons, printed]

theorem occursIn_iff {part cs : List Char} : occursIn part cs = true ↔ part <:+: cs := by
  induction cs with
  | nil => rw [occursIn, List.isEmpty_iff, List.infix_nil]
  | cons c cs ih =>
    rw [occursIn, Bool.or_eq_true, ih, List.infix_cons_iff, List.isPrefixOf_iff_prefix]

/-- A text that has a character in it cannot begin before the last part of a text that has not. -/
theorem occursIn_of_append {before after front back : List Char} {c : Char} (hc : c ∉ back)
    (h : occursIn (before ++ c :: after) (front ++ back) = true) :
    occursIn (before ++ [c]) front = true := by
  obtain ⟨left, right, heq⟩ := occursIn_iff.1 h
  have hsplit : (left ++ (before ++ [c])) ++ (after ++ right) = front ++ back := by
    rw [← heq]
    simp
  rw [occursIn_iff]
  rcases List.append_eq_append_iff.1 hsplit with ⟨more, hfront, -⟩ | ⟨more, hleft, hback⟩
  · exact ⟨left, more, by rw [hfront]⟩
  · rcases List.eq_nil_or_concat' more with rfl | ⟨most, last, rfl⟩
    · exact ⟨left, [], by simpa using hleft⟩
    · have hlast : c = last := by
        rw [← List.append_assoc, ← List.append_assoc] at hleft
        exact List.singleton_inj.1 (List.append_inj' hleft rfl).2
      refine absurd ?_ hc
      rw [hback, hlast]
      simp

theorem trim_ne_nil {c : Char} (hc : isBlank c = false) (rest : List Char) :
    trim (c :: rest) ≠ [] := by
  intro htrim
  have hstart : (c :: rest).dropWhile isBlank = c :: rest := by simp [hc]
  rw [trim, hstart, trimEnd, Path.dropTrailing, List.reverse_eq_nil_iff,
    List.dropWhile_eq_nil_iff] at htrim
  have hblank := htrim c (List.mem_reverse.2 List.mem_cons_self)
  rw [hc] at hblank
  cases hblank

theorem withoutReturn_subset (line : List Char) : withoutReturn line ⊆ line := by
  rw [withoutReturn]
  split
  · exact List.dropLast_subset line
  · exact List.Subset.refl line

theorem mem_ofPieces {pieces : List (List Char)} {line : List Char} (h : line ∈ ofPieces pieces) :
    ∃ piece ∈ pieces, line ⊆ piece := by
  fun_induction ofPieces pieces with
  | case1 => cases h
  | case2 => cases h
  | case3 last _ =>
    obtain rfl := List.mem_singleton.1 h
    exact ⟨line, List.mem_singleton_self line, List.Subset.refl line⟩
  | case4 piece next rest ih =>
    rcases List.mem_cons.1 h with rfl | hrest
    · exact ⟨piece, List.mem_cons_self, withoutReturn_subset piece⟩
    · obtain ⟨other, hother, hsub⟩ := ih hrest
      exact ⟨other, List.mem_cons_of_mem _ hother, hsub⟩

theorem not_mem_of_mem_lines {cs line : List Char} (h : line ∈ lines cs) : '\n' ∉ line := by
  obtain ⟨piece, hpiece, hsub⟩ := mem_ofPieces h
  exact fun hmem => Path.not_mem_splitAt hpiece (hsub hmem)

/-- A line ends in a carriage return that is no part of it, or is left as it is. -/
theorem withoutReturn_cases (line : List Char) :
    (∃ front, line = front ++ ['\r'] ∧ withoutReturn line = front) ∨ withoutReturn line = line := by
  rw [withoutReturn]
  split
  · next hlast =>
    obtain ⟨front, hfront⟩ := List.getLast?_eq_some_iff.1 hlast
    exact Or.inl ⟨front, hfront, by rw [hfront, List.dropLast_concat]⟩
  · exact Or.inr rfl

theorem trim_subset (cs : List Char) : trim cs ⊆ cs := by
  intro c hc
  rw [trim, trimEnd, Path.dropTrailing, List.mem_reverse] at hc
  have hkept := List.mem_reverse.1 ((List.dropWhile_sublist _).subset hc)
  exact (List.dropWhile_sublist _).subset hkept

theorem trim_append_of_blank {front : List Char} (h : ∀ c ∈ front, isBlank c = true)
    (back : List Char) : trim (front ++ back) = trim back := by
  rw [trim, trim, List.dropWhile_append_of_pos h]

theorem trimEnd_concat {c : Char} (hc : isBlank c = true) (cs : List Char) :
    trimEnd (cs ++ [c]) = trimEnd cs := by
  rw [trimEnd, trimEnd, Path.dropTrailing, Path.dropTrailing, List.reverse_append,
    List.reverse_singleton, List.singleton_append, List.dropWhile_cons_of_pos hc]

theorem trim_concat {c : Char} (hc : isBlank c = true) (cs : List Char) :
    trim (cs ++ [c]) = trim cs := by
  rw [trim, trim, List.dropWhile_append]
  split
  · next hempty =>
    rw [List.isEmpty_iff.1 hempty, List.dropWhile_cons_of_pos hc, List.dropWhile_nil]
  · exact trimEnd_concat hc _

theorem trim_withoutReturn (line : List Char) : trim (withoutReturn line) = trim line := by
  rcases withoutReturn_cases line with ⟨front, rfl, hfront⟩ | hsame
  · rw [hfront, trim_concat (by decide)]
  · rw [hsame]

theorem trim_ne_nil_of_mem {c : Char} {cs : List Char} (hmem : c ∈ cs)
    (hc : isBlank c = false) : trim cs ≠ [] := by
  have hsolid : cs.dropWhile isBlank ≠ [] := by
    intro hnil
    have hblank := List.dropWhile_eq_nil_iff.1 hnil c hmem
    rw [hc] at hblank
    cases hblank
  obtain ⟨first, rest, hfirst⟩ := List.exists_cons_of_ne_nil hsolid
  have hstart : isBlank first = false := by
    have hhead := List.head_dropWhile_not isBlank hsolid
    simpa only [hfirst, List.head_cons] using hhead
  have hsame : trim (first :: rest) = trim cs := by
    rw [trim, trim, List.dropWhile_cons_of_neg (by simp [hstart]), ← hfirst]
  exact hsame ▸ trim_ne_nil hstart rest

theorem trimEnd_append {back : List Char} (h : trimEnd back ≠ []) (front : List Char) :
    trimEnd (front ++ back) = front ++ trimEnd back := by
  have hsolid : (back.reverse.dropWhile isBlank).isEmpty = false := by
    rw [List.isEmpty_eq_false_iff]
    exact fun hnil => h (List.reverse_eq_nil_iff.2 hnil)
  rw [trimEnd, trimEnd, Path.dropTrailing, Path.dropTrailing, List.reverse_append,
    List.dropWhile_append, hsolid, if_neg (by decide), List.reverse_append, List.reverse_reverse]

/-- What is trimmed is trimmed at both ends. -/
theorem trimEnd_eq_of_trim_eq {cs : List Char} (h : trim cs = cs) : trimEnd cs = cs := by
  have hlength : cs.length ≤ (cs.dropWhile isBlank).length := by
    have htrimmed : (trim cs).length ≤ (cs.dropWhile isBlank).length := by
      rw [trim, trimEnd, Path.dropTrailing, List.length_reverse]
      exact (List.dropWhile_sublist _).length_le.trans_eq List.length_reverse
    rwa [h] at htrimmed
  have hstart : cs.dropWhile isBlank = cs :=
    (List.dropWhile_suffix _).eq_of_length_le hlength
  rwa [trim, hstart] at h

/-- Nothing is trimmed from a text that begins with what is not blank and ends as a trimmed one. -/
theorem trim_append_of_trimmed {first : Char} (hfirst : isBlank first = false)
    (front : List Char) {back : List Char} (hback : trim back = back) (hne : back ≠ []) :
    trim (first :: front ++ back) = first :: front ++ back := by
  have hend : trimEnd back = back := trimEnd_eq_of_trim_eq hback
  have hstart : (first :: front ++ back).dropWhile isBlank = first :: front ++ back :=
    List.dropWhile_cons_of_neg (by simp [hfirst])
  rw [trim, hstart, trimEnd_append (hend.symm ▸ hne), hend]

/-- No place in `front` is one where `part` could begin, whatever follows. -/
def Apart (part front : List Char) : Prop :=
  ∀ tail ∈ front.tails, tail ≠ [] → ¬ tail <+: part ∧ ¬ part <+: tail

instance (part front : List Char) : Decidable (Apart part front) :=
  inferInstanceAs (Decidable (∀ tail ∈ front.tails, tail ≠ [] → ¬ tail <+: part ∧ ¬ part <+: tail))

theorem occursIn_append_of_apart {part front : List Char} (h : Apart part front)
    (back : List Char) : occursIn part (front ++ back) = occursIn part back := by
  induction front with
  | nil => rfl
  | cons c rest ih =>
    have hrest : Apart part rest := fun tail htail =>
      h tail ((List.mem_tails _ _).2
        (((List.mem_tails _ _).1 htail).trans (List.suffix_cons c rest)))
    have hhere := h (c :: rest) ((List.mem_tails _ _).2 List.suffix_rfl) (List.cons_ne_nil c rest)
    have hstart : part.isPrefixOf (c :: (rest ++ back)) = false := by
      refine Bool.eq_false_iff.2 fun hprefix => ?_
      have hpart : part <+: (c :: rest) ++ back := List.isPrefixOf_iff_prefix.1 hprefix
      have hown : (c :: rest) <+: (c :: rest) ++ back := List.prefix_append _ _
      exact (List.prefix_or_prefix_of_prefix hpart hown).elim hhere.2 hhere.1
    rw [List.cons_append, occursIn, hstart, Bool.false_or, ih hrest]

theorem occursIn_withoutReturn {part : List Char} (hpart : '\r' ∉ part) (hne : part ≠ [])
    (line : List Char) : occursIn part (withoutReturn line) = occursIn part line := by
  rcases withoutReturn_cases line with ⟨front, rfl, hfront⟩ | hsame
  · rw [hfront, Bool.eq_iff_iff, occursIn_iff, occursIn_iff, List.infix_concat_iff,
      List.suffix_concat_iff]
    refine ⟨Or.inr, ?_⟩
    rintro ((hnil | ⟨before, rfl, -⟩) | hinfix)
    · exact absurd hnil hne
    · exact absurd (List.mem_append_right before (List.mem_singleton_self _)) hpart
    · exact hinfix
  · rw [hsame]

end Text

end TestBench
