import Mathlib.Data.List.Infix
import TestBench.Text.Position

/-!
Places in a text. An offset is good if it falls between two characters, before
the first or after the last, and a span is good if both its ends are and they
are in order. Spans that are put together from good ones are good. The position
of a good offset is on one of the lines of the text, at a column of this line or
just past its end.
-/
namespace TestBench

theorem byteLength_pos {text : List Char} (h : text ≠ []) : 0 < byteLength text := by
  cases text with
  | nil => exact absurd rfl h
  | cons c rest =>
    have hc := c.utf8Size_pos
    rw [byteLength_cons]
    omega

/-- The offset falls between two characters, before the first or after the last. -/
def IsBoundary (source : List Char) (offset : Nat) : Prop :=
  ∃ before after, source = before ++ after ∧ byteLength before = offset

theorem IsBoundary.le {source : List Char} {offset : Nat} (h : IsBoundary source offset) :
    offset ≤ byteLength source := by
  obtain ⟨before, after, rfl, rfl⟩ := h
  rw [byteLength_append]
  omega

theorem isBoundary_zero (source : List Char) : IsBoundary source 0 := ⟨[], source, rfl, rfl⟩

theorem isBoundary_end (source : List Char) : IsBoundary source (byteLength source) :=
  ⟨source, [], (List.append_nil _).symm, rfl⟩

namespace Span

/-- The ends of the span are in order, and each falls between two characters of the text, before
its first or after its last. -/
structure Within (source : List Char) (s : Span) : Prop where
  start_le_stop : s.start ≤ s.stop
  start : IsBoundary source s.start
  stop : IsBoundary source s.stop

/-- The span holds `text`, with `before` in front of it and `after` behind it. -/
structure Holds (s : Span) (source before text after : List Char) : Prop where
  source_eq : source = before ++ text ++ after
  start_eq : s.start = byteLength before
  stop_eq : s.stop = byteLength before + byteLength text

variable {source : List Char} {s t : Span}

theorem Holds.within {before text after : List Char} (h : s.Holds source before text after) :
    s.Within source := by
  refine ⟨?_, ⟨before, text ++ after, ?_, h.start_eq.symm⟩,
    ⟨before ++ text, after, h.source_eq, ?_⟩⟩
  · rw [h.start_eq, h.stop_eq]
    exact Nat.le_add_right _ _
  · rw [h.source_eq, List.append_assoc]
  · rw [byteLength_append, h.stop_eq]

theorem within_empty {offset : Nat} (h : IsBoundary source offset) : (empty offset).Within source :=
  ⟨Nat.le_refl _, h, h⟩

theorem Within.merge (hs : s.Within source) (ht : t.Within source) :
    (s.merge t).Within source := by
  refine ⟨?_, ?_, ?_⟩
  · exact (Nat.min_le_left _ _).trans (hs.start_le_stop.trans (Nat.le_max_left _ _))
  · rcases Nat.le_total s.start t.start with hle | hle
    · simpa only [Span.merge, Nat.min_eq_left hle] using hs.start
    · simpa only [Span.merge, Nat.min_eq_right hle] using ht.start
  · rcases Nat.le_total s.stop t.stop with hle | hle
    · simpa only [Span.merge, Nat.max_eq_right hle] using ht.stop
    · simpa only [Span.merge, Nat.max_eq_left hle] using hs.stop

end Span

theorem splitLines_ne_nil (source : List Char) : splitLines source ≠ [] := by
  cases source with
  | nil => exact List.cons_ne_nil _ _
  | cons c rest =>
    rw [splitLines]
    split
    · exact List.cons_ne_nil _ _
    · split <;> exact List.cons_ne_nil _ _

theorem intercalate_splitLines (source : List Char) :
    ['\n'].intercalate (splitLines source) = source := by
  induction source with
  | nil => rfl
  | cons c rest ih =>
    rw [splitLines]
    cases hlines : splitLines rest with
    | nil => exact absurd hlines (splitLines_ne_nil rest)
    | cons line more =>
      rw [hlines] at ih
      split
      · next hc => rw [List.intercalate_cons_cons, ih, hc]; rfl
      · cases more with
        | nil => simpa [List.intercalate] using ih
        | cons next more => rw [List.intercalate_cons_cons] at ih ⊢; rw [← ih]; rfl

theorem newline_not_mem_splitLines (source : List Char) :
    ∀ line ∈ splitLines source, '\n' ∉ line := by
  induction source with
  | nil => simp [splitLines]
  | cons c rest ih =>
    rw [splitLines]
    split
    · exact List.forall_mem_cons.2 ⟨List.not_mem_nil, ih⟩
    · next hc =>
      cases hlines : splitLines rest with
      | nil => exact absurd hlines (splitLines_ne_nil rest)
      | cons line more =>
        rw [hlines] at ih
        obtain ⟨hline, hmore⟩ := List.forall_mem_cons.1 ih
        refine List.forall_mem_cons.2 ⟨?_, hmore⟩
        rw [List.mem_cons, not_or]
        exact ⟨Ne.symm hc, hline⟩

theorem length_splitLines (source : List Char) :
    (splitLines source).length = source.count '\n' + 1 := by
  induction source with
  | nil => rfl
  | cons c rest ih =>
    rw [splitLines, List.count_cons]
    split
    · next hc => simp [ih, hc]
    · next hc =>
      cases hlines : splitLines rest with
      | nil => exact absurd hlines (splitLines_ne_nil rest)
      | cons line more => simpa [hlines, hc] using ih

namespace Position

/-- The position is that of an offset, where lines are numbered from `first` on; `before` and
`after` are what stands before and after its line. -/
structure Locates (p : Position) (first : Nat) (source : List Char) (offset : Nat)
    (before after : List Char) : Prop where
  source_eq : source = before ++ p.text ++ after
  line_eq : p.line = first + before.count '\n'
  offset_eq : byteLength before + p.column = offset + 1
  column_pos : 1 ≤ p.column
  column_le : p.column ≤ byteLength p.text + 1
  no_newline : '\n' ∉ p.text
  before_ends : before = [] ∨ before.getLast? = some '\n'
  after_starts : after = [] ∨ after.head? = some '\n'

/-- The lines before the one of the position are the ones that were passed by. -/
theorem among_locates {lines : List (List Char)} (hlines : lines ≠ [])
    (hplain : ∀ line ∈ lines, '\n' ∉ line) (first : Nat) {offset : Nat}
    (hoffset : offset ≤ byteLength (['\n'].intercalate lines)) : ∃ before after,
      (among first offset lines).Locates first (['\n'].intercalate lines) offset before after := by
  induction lines generalizing first offset with
  | nil => exact absurd rfl hlines
  | cons line more ih =>
    obtain ⟨hline, hmore⟩ := List.forall_mem_cons.1 hplain
    cases more with
    | nil =>
      have hone : ['\n'].intercalate [line] = line := by simp [List.intercalate]
      rw [hone] at hoffset ⊢
      have hcolumn : min offset (byteLength line) = offset := Nat.min_eq_left hoffset
      refine ⟨[], [], by simp [among], rfl, ?_, ?_, ?_, hline, Or.inl rfl, Or.inl rfl⟩
      all_goals
        simp only [among, hcolumn, byteLength_nil]
        omega
    | cons next rest =>
      rw [List.intercalate_cons_cons] at hoffset ⊢
      rw [among]
      split
      · next hle =>
        refine ⟨[], '\n' :: ['\n'].intercalate (next :: rest), by simp, rfl, ?_, ?_, ?_, hline,
          Or.inl rfl, Or.inr rfl⟩
        all_goals
          simp only [byteLength_nil]
          omega
      · next hlt =>
        have hsize : byteLength ['\n'] = 1 := rfl
        have hleft : offset - (byteLength line + 1) ≤
            byteLength (['\n'].intercalate (next :: rest)) := by
          rw [byteLength_append, byteLength_append, hsize] at hoffset
          omega
        obtain ⟨before, after, h⟩ := ih (List.cons_ne_nil _ _) hmore (first + 1) hleft
        refine ⟨line ++ ['\n'] ++ before, after, ?_⟩
        refine ⟨?_, ?_, ?_, h.column_pos, h.column_le, h.no_newline, Or.inr ?_, h.after_starts⟩
        · rw [h.source_eq]
          simp
        · -- The line feeds passed by are those in `before` and the one after `line`.
          have hcount := h.line_eq
          have hnone : line.count '\n' = 0 := List.count_eq_zero.2 hline
          simp only [List.count_append, hnone, List.count_singleton_self] at hcount ⊢
          omega
        · have hbytes := h.offset_eq
          rw [byteLength_append, byteLength_append, hsize]
          omega
        · rcases h.before_ends with rfl | hends
          · simp
          · rw [List.getLast?_append, hends, Option.some_or]

/-- An offset into a text has a position on one of its lines. -/
theorem ofOffset_locates {source : List Char} {offset : Nat}
    (h : offset ≤ byteLength source) :
    ∃ before after, (ofOffset source offset).Locates 1 source offset before after := by
  have hjoined := intercalate_splitLines source
  obtain ⟨before, after, hlocates⟩ := among_locates (splitLines_ne_nil source)
    (newline_not_mem_splitLines source) 1 (hjoined.symm ▸ h)
  rw [hjoined] at hlocates
  exact ⟨before, after, hlocates⟩

/-- The number of a line is one of those that the lines of the text have. -/
theorem Locates.line_le {p : Position} {source before after : List Char} {offset : Nat}
    (h : p.Locates 1 source offset before after) : 1 ≤ p.line ∧ p.line ≤ source.count '\n' + 1 := by
  rw [h.line_eq, h.source_eq, List.count_append, List.count_append]
  omega

end Position

end TestBench
