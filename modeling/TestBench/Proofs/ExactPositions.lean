import Mathlib.Data.Set.Function
import Mathlib.Order.Interval.Set.Defs
import TestBench.Proofs.TextPlaces
import TestBench.Text.Utf8

/-!
Positions and the bytes of a text. The line of an offset is counted by the line
feed bytes before it, and its column by the bytes behind the last of them; the
line itself is the piece of the text that has so many pieces before it. So an
offset is found again from its position: it is as far on as the lines before
are long, with their line feeds, and then by the column. Offsets past the end
have the position of the end, and offsets inside a character have one too.
-/
namespace TestBench

namespace Utf8

theorem encode_append (xs ys : List Char) : encode (xs ++ ys) = encode xs ++ encode ys :=
  List.flatMap_append

theorem length_encode (cs : List Char) : (encode cs).length = byteLength cs := by
  induction cs with
  | nil => rfl
  | cons c rest ih =>
    rw [encode, List.flatMap_cons, List.length_append, String.length_utf8EncodeChar,
      byteLength_cons, ← ih, encode]

/-- All bytes of a character that takes more than one are above those of single ones. -/
theorem lineFeed_not_mem {c : Char} (h : c ≠ '\n') : 0x0A ∉ String.utf8EncodeChar c := by
  have hvalue : c.val.toNat ≠ 10 := by
    intro heq
    apply h
    rw [← Char.ofNat_toNat c]
    exact congrArg Char.ofNat heq
  have hvalid : c.val.toNat < 0xD800 ∨ 0xDFFF < c.val.toNat ∧ c.val.toNat < 0x110000 := c.valid
  have hbytes : ∀ ns : List Nat, (∀ n ∈ ns, n ≠ 10 ∧ n < 256) → 0x0A ∉ ns.map UInt8.ofNat := by
    intro ns hns hmem
    obtain ⟨n, hn, heq⟩ := List.mem_map.1 hmem
    obtain ⟨hne, hlt⟩ := hns n hn
    have hten := congrArg UInt8.toNat heq
    rw [UInt8.toNat_ofNat_of_lt' hlt] at hten
    exact hne hten
  simp only [String.utf8EncodeChar]
  generalize c.val.toNat = v at *
  split
  · apply hbytes [v]
    simp only [List.mem_singleton, forall_eq]
    omega
  split
  · apply hbytes [v / 64 % 32 + 192, v % 64 + 128]
    simp only [List.forall_mem_cons]
    refine ⟨by omega, by omega, List.forall_mem_nil _⟩
  split
  · apply hbytes [v / 4096 % 16 + 224, v / 64 % 64 + 128, v % 64 + 128]
    simp only [List.forall_mem_cons]
    refine ⟨by omega, by omega, by omega, List.forall_mem_nil _⟩
  · apply hbytes [v / 262144 % 8 + 240, v / 4096 % 64 + 128, v / 64 % 64 + 128, v % 64 + 128]
    simp only [List.forall_mem_cons]
    refine ⟨by omega, by omega, by omega, by omega, List.forall_mem_nil _⟩

theorem lineFeed_mem_encode {cs : List Char} (h : 0x0A ∈ encode cs) : '\n' ∈ cs := by
  obtain ⟨c, hc, hbyte⟩ := List.mem_flatMap.1 h
  by_cases hnewline : c = '\n'
  · exact hnewline ▸ hc
  · exact absurd hbyte (lineFeed_not_mem hnewline)

/-- A line feed is one byte, which is in no other character. -/
theorem count_lineFeed (cs : List Char) : (encode cs).count 0x0A = cs.count '\n' := by
  induction cs with
  | nil => rfl
  | cons c rest ih =>
    rw [encode, List.flatMap_cons, List.count_append, List.count_cons]
    rw [encode] at ih
    by_cases hnewline : c = '\n'
    · have hone : (String.utf8EncodeChar '\n').count 0x0A = 1 := by decide
      rw [hnewline, hone, ih, Nat.add_comm]
      rfl
    · rw [List.count_eq_zero.2 (lineFeed_not_mem hnewline), ih]
      simp [hnewline]

end Utf8

namespace Position

/-- What stands before a line: the earlier lines, with a line feed behind each. -/
def textBefore (source : List Char) (line : Nat) : List Char :=
  ((source.splitOn '\n').take (line - 1)).flatMap (· ++ ['\n'])

/-- How many bytes the earlier lines take, with one for the line feed behind each. -/
def lineStart (source : List Char) (line : Nat) : Nat :=
  ((source.splitOn '\n').take (line - 1)).foldr
    (fun earlier total => (Utf8.encode earlier).length + 1 + total) 0

theorem byteLength_textBefore (source : List Char) (line : Nat) :
    byteLength (textBefore source line) = lineStart source line := by
  have hlines : ∀ lines : List (List Char), byteLength (lines.flatMap (· ++ ['\n'])) =
      lines.foldr (fun earlier total => (Utf8.encode earlier).length + 1 + total) 0 := by
    intro lines
    induction lines with
    | nil => rfl
    | cons earlier rest ih =>
      have hfeed : byteLength ['\n'] = 1 := rfl
      rw [List.flatMap_cons, byteLength_append, byteLength_append, hfeed, ih, List.foldr_cons,
        Utf8.length_encode]
  exact hlines _

/-- The line has as many before it as there are line feeds before the offset, and the column counts
the bytes from the start of this line. -/
structure Exact (p : Position) (source : List Char) (offset : Nat) : Prop where
  line : p.line = 1 + ((Utf8.encode source).take offset).count 0x0A
  text : (source.splitOn '\n')[p.line - 1]? = some p.text
  stands : ∃ after, source = textBefore source p.line ++ p.text ++ after
  start_le : lineStart source p.line ≤ offset
  column : p.column = 1 + (offset - lineStart source p.line)
  column_le : p.column - 1 ≤ (Utf8.encode p.text).length

section Lines

variable {before text after : List Char}

theorem splitLines_eq_splitOn (source : List Char) : splitLines source = source.splitOn '\n' := by
  have hback := List.splitOn_intercalate '\n' (newline_not_mem_splitLines source)
    (splitLines_ne_nil source)
  rw [intercalate_splitLines] at hback
  exact hback.symm

theorem splitOn_newline (xs ys : List Char) :
    (xs ++ '\n' :: ys).splitOn '\n' = xs.splitOn '\n' ++ ys.splitOn '\n' :=
  List.splitOnP_append_cons xs ys (beq_self_eq_true '\n')

/-- A text without line feeds that is followed by none or by one is the first line. -/
theorem splitOn_front (htext : '\n' ∉ text) (hafter : after = [] ∨ after.head? = some '\n') :
    ∃ later, (text ++ after).splitOn '\n' = text :: later := by
  have hone : text.splitOn '\n' = [text] := List.splitOn_eq_singleton htext
  cases after with
  | nil => exact ⟨[], by rw [List.append_nil, hone]⟩
  | cons c rest =>
    have hc : c = '\n' := by simpa using hafter
    refine ⟨rest.splitOn '\n', ?_⟩
    rw [hc, splitOn_newline, hone, List.singleton_append]

theorem flatMap_eq_intercalate {lines : List (List Char)} (h : lines ≠ []) :
    lines.flatMap (· ++ ['\n']) = ['\n'].intercalate lines ++ ['\n'] := by
  induction lines with
  | nil => exact absurd rfl h
  | cons line more ih =>
    cases more with
    | nil => simp [List.intercalate]
    | cons next rest =>
      rw [List.flatMap_cons, ih (List.cons_ne_nil _ _), List.intercalate_cons_cons]
      simp only [List.append_assoc]

/-- Whole lines at the front are pieces of their own, as many as there are line feeds in them. -/
theorem splitOn_behind (hbefore : before = [] ∨ before.getLast? = some '\n') (rest : List Char) :
    ∃ earlier, (before ++ rest).splitOn '\n' = earlier ++ rest.splitOn '\n' ∧
      earlier.length = before.count '\n' ∧ earlier.flatMap (· ++ ['\n']) = before := by
  rcases hbefore with rfl | hlast
  · exact ⟨[], rfl, rfl, rfl⟩
  · obtain ⟨front, rfl⟩ := List.getLast?_eq_some_iff.1 hlast
    have hpieces : front.splitOn '\n' ≠ [] := by
      rw [← splitLines_eq_splitOn]
      exact splitLines_ne_nil front
    refine ⟨front.splitOn '\n', ?_, ?_, ?_⟩
    · rw [List.append_assoc, List.singleton_append, splitOn_newline]
    · rw [← splitLines_eq_splitOn, length_splitLines, List.count_append, List.count_singleton_self]
    · rw [flatMap_eq_intercalate hpieces, List.intercalate_splitOn]

end Lines

/-- Past the end, the position is that of the end. -/
theorem ofOffset_min (source : List Char) (offset : Nat) :
    ofOffset source (min offset (byteLength source)) = ofOffset source offset := by
  have hlines : ∀ (lines : List (List Char)) (first offset : Nat),
      among first (min offset (byteLength (['\n'].intercalate lines))) lines =
        among first offset lines := by
    intro lines
    induction lines with
    | nil => exact fun _ _ => rfl
    | cons line more ih =>
      intro first offset
      cases more with
      | nil =>
        have hone : ['\n'].intercalate [line] = line := by simp [List.intercalate]
        rw [hone, among, among, Nat.min_assoc, Nat.min_self]
      | cons next rest =>
        have hfeed : byteLength ['\n'] = 1 := rfl
        have hlength : byteLength (['\n'].intercalate (line :: next :: rest)) =
            byteLength line + 1 + byteLength (['\n'].intercalate (next :: rest)) := by
          rw [List.intercalate_cons_cons, byteLength_append, byteLength_append, hfeed]
        rw [hlength, among, among]
        by_cases hle : offset ≤ byteLength line
        · have hmin : min offset (byteLength line + 1 +
              byteLength (['\n'].intercalate (next :: rest))) = offset := by omega
          rw [hmin]
        · have hlater : min offset (byteLength line + 1 +
              byteLength (['\n'].intercalate (next :: rest))) - (byteLength line + 1) =
                min (offset - (byteLength line + 1))
                  (byteLength (['\n'].intercalate (next :: rest))) := by omega
          rw [if_neg hle, if_neg (by omega), hlater, ih]
  have h := hlines (splitLines source) 1 offset
  rw [intercalate_splitLines] at h
  exact h

/-- The line feed bytes before a place are those of the lines before. -/
theorem Locates.count_take {p : Position} {source before after : List Char} {offset : Nat}
    (h : p.Locates 1 source offset before after) :
    ((Utf8.encode source).take offset).count 0x0A = before.count '\n' := by
  have hoffset : offset = (Utf8.encode before).length + (p.column - 1) := by
    rw [Utf8.length_encode]
    have hbytes := h.offset_eq
    have hcolumn := h.column_pos
    omega
  have hbytes : Utf8.encode source =
      Utf8.encode before ++ (Utf8.encode p.text ++ Utf8.encode after) := by
    rw [h.source_eq, List.append_assoc, Utf8.encode_append, Utf8.encode_append]
  have hin : p.column - 1 ≤ (Utf8.encode p.text).length := by
    rw [Utf8.length_encode]
    have hcolumn := h.column_le
    omega
  have hnone : ((Utf8.encode p.text).take (p.column - 1)).count 0x0A = 0 := by
    refine List.count_eq_zero.2 fun hmem => ?_
    exact h.no_newline (Utf8.lineFeed_mem_encode (List.mem_of_mem_take hmem))
  rw [hoffset, hbytes, List.take_length_add_append, List.take_append_of_le_length hin,
    List.count_append, Utf8.count_lineFeed, hnone, Nat.add_zero]

theorem Locates.exact {p : Position} {source before after : List Char} {offset : Nat}
    (h : p.Locates 1 source offset before after) : p.Exact source offset := by
  obtain ⟨earlier, hsplit, hlength, hbefore⟩ := splitOn_behind h.before_ends (p.text ++ after)
  obtain ⟨later, hfront⟩ := splitOn_front h.no_newline h.after_starts
  rw [hfront, ← List.append_assoc, ← h.source_eq] at hsplit
  have hnumber : p.line - 1 = earlier.length := by
    rw [h.line_eq, hlength]
    omega
  have htextBefore : textBefore source p.line = before := by
    rw [textBefore, hsplit, hnumber, List.take_left', hbefore]
    rfl
  have hstart : lineStart source p.line = byteLength before := by
    rw [← byteLength_textBefore, htextBefore]
  have hbytes := h.offset_eq
  have hpos := h.column_pos
  have hle := h.column_le
  refine ⟨?_, ?_, ⟨after, ?_⟩, ?_, ?_, ?_⟩
  · rw [h.count_take, h.line_eq]
  · rw [hsplit, hnumber, List.getElem?_append_right (Nat.le_refl _), Nat.sub_self]
    rfl
  · rw [htextBefore]
    exact h.source_eq
  · rw [hstart]
    omega
  · rw [hstart]
    omega
  · rw [Utf8.length_encode]
    omega

/-- An offset is found again from the position that it has. -/
theorem Exact.offset_eq {p : Position} {source : List Char} {offset : Nat}
    (h : p.Exact source offset) : offset = lineStart source p.line + (p.column - 1) := by
  have hstart := h.start_le
  have hcolumn := h.column
  omega

/-- The position of an offset is the place where it is, or the end of the text. Offsets into a text
with the same line and column are the same. -/
theorem ofOffset_exact (source : List Char) (offset : Nat) :
    (ofOffset source offset).Exact source (min offset (Utf8.encode source).length) ∧
    min offset (Utf8.encode source).length =
      lineStart source (ofOffset source offset).line + ((ofOffset source offset).column - 1) ∧
    Set.InjOn (fun o => ((ofOffset source o).line, (ofOffset source o).column))
      (Set.Iic (Utf8.encode source).length) := by
  have hexact : ∀ o, (ofOffset source o).Exact source (min o (Utf8.encode source).length) := by
    intro o
    rw [Utf8.length_encode, ← ofOffset_min]
    obtain ⟨before, after, hlocates⟩ :=
      ofOffset_locates (Nat.min_le_right o (byteLength source))
    exact hlocates.exact
  refine ⟨hexact offset, (hexact offset).offset_eq, ?_⟩
  intro a ha b hb heq
  obtain ⟨hline, hcolumn⟩ := Prod.mk.inj heq
  have hfirst := (hexact a).offset_eq
  have hsecond := (hexact b).offset_eq
  rw [Nat.min_eq_left ha, hline, hcolumn] at hfirst
  rw [Nat.min_eq_left hb] at hsecond
  exact hfirst.trans hsecond.symm

/-- An offset inside the first character of the second line. -/
example : ofOffset ['ä', '\n', 'ö'] 4 = ⟨2, 2, ['ö']⟩ := by decide

end Position

end TestBench
