import TestBench.Proofs.SpelledValues

/-!
What reading a value depends on. A reading that succeeds has gone through its
input up to some character, never up to an ill-formed unit, and it would have
gone the same way with anything else behind the input; only a number must not
come to stand at the end of it. The bytes of a text that is cut off spell the
characters before the cut and at most one ill-formed unit.
-/
namespace TestBench

namespace JsonValue

/-- The input goes on with `rest` right after one of its characters. -/
def Consumes (cs rest : Input) : Prop := ∃ used c, cs = used ++ some c :: rest

namespace Consumes

variable {cs mid rest : Input}

theorem head (c : Char) (rest : Input) : Consumes (some c :: rest) rest := ⟨[], c, rfl⟩

theorem append_left (used : Input) (h : Consumes cs rest) : Consumes (used ++ cs) rest := by
  obtain ⟨before, c, rfl⟩ := h
  exact ⟨used ++ before, c, by rw [List.append_assoc]⟩

theorem trans (h : Consumes cs mid) (h' : Consumes mid rest) : Consumes cs rest := by
  obtain ⟨used, c, rfl⟩ := h
  rw [List.append_cons]
  exact h'.append_left _

theorem of_skipBlanks (h : Consumes (skipBlanks cs) rest) : Consumes cs rest := by
  rw [← List.takeWhile_append_dropWhile (p := isBlank) (l := cs)]
  exact h.append_left _

/-- A blank or a character behind what was consumed is consumed too. -/
theorem skip {c : Char} (h : Consumes cs mid) (hskip : skipBlanks mid = some c :: rest) :
    Consumes cs rest :=
  h.trans (of_skipBlanks (hskip ▸ head c rest))

theorem ne_nil (h : Consumes cs rest) : cs ≠ [] := by
  obtain ⟨used, c, rfl⟩ := h
  simp

/-- An ill-formed unit at the end of the input is not consumed. -/
theorem none_mem {before : Input} (h : Consumes (before ++ [none]) rest) : none ∈ rest := by
  obtain ⟨used, c, heq⟩ := h
  rcases List.eq_nil_or_concat' rest with rfl | ⟨most, last, rfl⟩
  · cases (List.append_inj' heq rfl).2
  · rw [← List.cons_append, ← List.append_assoc] at heq
    obtain ⟨rfl, -⟩ := List.cons.inj (List.append_inj' heq rfl).2
    exact List.mem_append_right _ List.mem_cons_self

end Consumes

theorem skipBlanks_append {cs rest : Input} {u : Option Char} (h : skipBlanks cs = u :: rest)
    (more : Input) : skipBlanks (cs ++ more) = u :: (rest ++ more) := by
  induction cs with
  | nil => cases h
  | cons v vs ih =>
    rw [skipBlanks, List.dropWhile_cons] at h
    rw [List.cons_append, skipBlanks, List.dropWhile_cons]
    split at h
    · next hblank =>
      rw [if_pos hblank]
      exact ih h
    · next hblank =>
      obtain ⟨rfl, rfl⟩ := List.cons.inj h
      rw [if_neg hblank]

theorem ne_nil_of_skipBlanks {cs rest : Input} {u : Option Char}
    (h : skipBlanks cs = u :: rest) : cs ≠ [] := by
  rintro rfl
  cases h

theorem skipBlanks_skipBlanks (cs : Input) : skipBlanks (skipBlanks cs) = skipBlanks cs := by
  induction cs with
  | nil => rfl
  | cons v vs ih =>
    cases hblank : isBlank v with
    | true => simpa [skipBlanks, hblank] using ih
    | false => simp [skipBlanks, hblank]

section Pieces

variable {cs rest : Input} {pieces : List Piece}

/-- What reading a string goes through does not depend on what stands behind it. -/
theorem readPieces_local (h : readPieces cs = some (pieces, rest)) :
    Consumes cs rest ∧ ∀ more, readPieces (cs ++ more) = some (pieces, rest ++ more) := by
  fun_induction readPieces cs generalizing pieces with
  | case1 => cases h
  | case2 after =>
    obtain ⟨rfl, rfl⟩ := Prod.mk.inj (Option.some.inj h)
    exact ⟨.head '"' after, fun more => by rw [List.cons_append, readPieces]⟩
  | case3 a b c d after ih =>
    simp only [Option.bind_eq_bind, Option.bind_eq_some_iff] at h
    obtain ⟨_, ha, _, hb, _, hc, _, hd, ⟨found, _⟩, hfound, heq⟩ := h
    obtain ⟨rfl, rfl⟩ := Prod.mk.inj (Option.some.inj heq)
    obtain ⟨hconsumes, hmore⟩ := ih hfound
    refine ⟨hconsumes.append_left [some '\\', some 'u', a, b, c, d], fun more => ?_⟩
    simp only [List.cons_append]
    rw [readPieces, ha, hb, hc, hd]
    simp only [Option.bind_eq_bind, Option.bind_some, hmore more]
    rfl
  | case4 c after _ ih =>
    simp only [Option.bind_eq_bind, Option.bind_eq_some_iff] at h
    obtain ⟨d, hd, ⟨found, _⟩, hfound, heq⟩ := h
    obtain ⟨rfl, rfl⟩ := Prod.mk.inj (Option.some.inj heq)
    obtain ⟨hconsumes, hmore⟩ := ih hfound
    have hu : c ≠ 'u' := by
      rintro rfl
      cases hd
    refine ⟨hconsumes.append_left [some '\\', some c], fun more => ?_⟩
    rw [List.cons_append, List.cons_append, readPieces_short hu hd, hmore more]
    rfl
  | case5 => cases h
  | case6 => cases h
  | case7 c after hquote _ _ hslash hcontrol ih =>
    simp only [Option.bind_eq_bind, Option.bind_eq_some_iff] at h
    obtain ⟨⟨found, _⟩, hfound, heq⟩ := h
    obtain ⟨rfl, rfl⟩ := Prod.mk.inj (Option.some.inj heq)
    obtain ⟨hconsumes, hmore⟩ := ih hfound
    refine ⟨hconsumes.append_left [some c], fun more => ?_⟩
    rw [List.cons_append, readPieces_plain hquote hslash hcontrol, hmore more]
    rfl
  | case8 after ih =>
    simp only [Option.bind_eq_bind, Option.bind_eq_some_iff] at h
    obtain ⟨⟨found, _⟩, hfound, heq⟩ := h
    obtain ⟨rfl, rfl⟩ := Prod.mk.inj (Option.some.inj heq)
    obtain ⟨hconsumes, hmore⟩ := ih hfound
    refine ⟨hconsumes.append_left [none], fun more => ?_⟩
    rw [List.cons_append, readPieces, hmore more]
    rfl

end Pieces

section Numbers

variable {cs rest : Input}

theorem dropWhile_append_of_ne_nil {p : Option Char → Bool} (h : cs.dropWhile p ≠ [])
    (more : Input) : (cs ++ more).takeWhile p = cs.takeWhile p ∧
      (cs ++ more).dropWhile p = cs.dropWhile p ++ more := by
  induction cs with
  | nil => exact absurd rfl h
  | cons u us ih =>
    cases hu : p u with
    | true =>
      rw [List.dropWhile_cons_of_pos hu] at h
      simpa [hu] using ih h
    | false => simp [hu]

/-- A part of a number that need not be there at all. -/
def MayConsume (cs rest : Input) : Prop := rest = cs ∨ Consumes cs rest

theorem MayConsume.ne_nil (h : MayConsume cs rest) (hrest : rest ≠ []) : cs ≠ [] := by
  rcases h with rfl | ⟨used, c, rfl⟩
  · exact hrest
  · simp

theorem MayConsume.after {before : Input} (h : MayConsume cs rest) (hbefore : Consumes before cs) :
    Consumes before rest := by
  rcases h with rfl | h
  · exact hbefore
  · exact hbefore.trans h

theorem readDigits_local {digits : Input} (h : readDigits cs = some (digits, rest)) :
    Consumes cs rest ∧
      (rest ≠ [] → ∀ more, readDigits (cs ++ more) = some (digits, rest ++ more)) := by
  unfold readDigits at h
  split at h
  · cases h
  · next hsome =>
    obtain ⟨rfl, rfl⟩ := Prod.mk.inj (Option.some.inj h)
    refine ⟨?_, fun hrest more => ?_⟩
    · obtain ⟨before, last, htake⟩ :=
        (List.eq_nil_or_concat' (cs.takeWhile isDigit)).resolve_left hsome
      have hlast : isDigit last = true := by
        refine List.all_eq_true.1 (List.all_takeWhile (p := isDigit) (l := cs)) last ?_
        rw [htake]
        exact List.mem_append_right _ List.mem_cons_self
      cases last with
      | none => cases hlast
      | some c =>
        refine ⟨before, c, ?_⟩
        rw [List.append_cons, ← htake, List.takeWhile_append_dropWhile]
    · obtain ⟨htake, hdrop⟩ := dropWhile_append_of_ne_nil hrest more
      rw [readDigits, htake, hdrop]
      split
      · next hnil => exact absurd hnil hsome
      · rfl

theorem readWhole_local {n : Nat} (h : readWhole cs = some (n, rest)) :
    Consumes cs rest ∧
      (rest ≠ [] → ∀ more, readWhole (cs ++ more) = some (n, rest ++ more)) := by
  obtain ⟨⟨digits, after⟩, hdigits, hvalue⟩ := Option.bind_eq_some_iff.1 h
  simp only at hvalue
  split at hvalue
  · cases hvalue
  · next hzero =>
    obtain ⟨rfl, rfl⟩ := Prod.mk.inj (Option.some.inj hvalue)
    obtain ⟨hconsumes, hmore⟩ := readDigits_local hdigits
    refine ⟨hconsumes, fun hrest more => ?_⟩
    rw [readWhole, hmore hrest more]
    exact if_neg hzero

theorem skipFraction_local {found : Bool} (h : skipFraction cs = some (found, rest)) :
    MayConsume cs rest ∧
      (rest ≠ [] → ∀ more, skipFraction (cs ++ more) = some (found, rest ++ more)) := by
  unfold skipFraction at h
  split at h
  · next after =>
    obtain ⟨⟨digits, _⟩, hdigits, heq⟩ := Option.map_eq_some_iff.1 h
    obtain ⟨rfl, rfl⟩ := Prod.mk.inj heq
    obtain ⟨hconsumes, hmore⟩ := readDigits_local hdigits
    refine ⟨Or.inr (hconsumes.append_left [some '.']), fun hrest more => ?_⟩
    rw [List.cons_append, skipFraction, hmore hrest more]
    rfl
  · next hdot =>
    obtain ⟨rfl, rfl⟩ := Prod.mk.inj (Option.some.inj h)
    refine ⟨Or.inl rfl, fun hrest more => ?_⟩
    obtain ⟨u, us, rfl⟩ := List.exists_cons_of_ne_nil hrest
    unfold skipFraction
    split
    · next heq => exact (hdot us (by rw [(List.cons.inj heq).1])).elim
    · rfl

/-- The digits of an exponent after its sign, if it has one. -/
def unsigned : Input → Input
  | some s :: more => if s = '+' ∨ s = '-' then more else some s :: more
  | cs => cs

theorem skipExponent_eq (e : Char) (cs : Input) : skipExponent (some e :: cs) =
    if e = 'e' ∨ e = 'E' then (readDigits (unsigned cs)).map fun r => (true, r.2)
    else some (false, some e :: cs) := by
  rcases cs with _ | ⟨_ | s, more⟩ <;> rfl

theorem unsigned_append (hcs : cs ≠ []) (more : Input) :
    unsigned (cs ++ more) = unsigned cs ++ more := by
  obtain ⟨u, us, rfl⟩ := List.exists_cons_of_ne_nil hcs
  cases u with
  | none => rfl
  | some s =>
    simp only [List.cons_append, unsigned]
    split <;> rfl

theorem Consumes.of_unsigned (h : Consumes (unsigned cs) rest) : Consumes cs rest := by
  rcases cs with _ | ⟨_ | s, more⟩
  · exact h
  · exact h
  · simp only [unsigned] at h
    split at h
    · exact h.append_left [some s]
    · exact h

theorem skipExponent_local {found : Bool} (h : skipExponent cs = some (found, rest)) :
    MayConsume cs rest ∧
      (rest ≠ [] → ∀ more, skipExponent (cs ++ more) = some (found, rest ++ more)) := by
  rcases cs with _ | ⟨_ | e, after⟩
  · obtain ⟨rfl, rfl⟩ := Prod.mk.inj (Option.some.inj h)
    exact ⟨Or.inl rfl, fun hrest => absurd rfl hrest⟩
  · obtain ⟨rfl, rfl⟩ := Prod.mk.inj (Option.some.inj h)
    exact ⟨Or.inl rfl, fun _ _ => rfl⟩
  rw [skipExponent_eq] at h
  simp only [List.cons_append, skipExponent_eq]
  split at h
  · next he =>
    obtain ⟨⟨digits, _⟩, hdigits, heq⟩ := Option.map_eq_some_iff.1 h
    obtain ⟨rfl, rfl⟩ := Prod.mk.inj heq
    obtain ⟨hconsumes, hmore⟩ := readDigits_local hdigits
    refine ⟨Or.inr (hconsumes.of_unsigned.append_left [some e]), fun hrest more => ?_⟩
    have hafter : after ≠ [] := by
      rintro rfl
      obtain ⟨used, c, hnil⟩ := hconsumes
      simp [unsigned] at hnil
    rw [if_pos he, unsigned_append hafter, hmore hrest more]
    rfl
  · next he =>
    obtain ⟨rfl, rfl⟩ := Prod.mk.inj (Option.some.inj h)
    exact ⟨Or.inl rfl, fun _ _ => if_neg he⟩

/-- A number may go on where its input ends, but not anywhere else. -/
theorem readNumber_local {negative : Bool} {v : JsonValue}
    (h : readNumber negative cs = some (v, rest)) : Consumes cs rest ∧
      (rest ≠ [] → ∀ more, readNumber negative (cs ++ more) = some (v, rest ++ more)) := by
  obtain ⟨⟨n, whole⟩, hwhole, h⟩ := Option.bind_eq_some_iff.1 h
  obtain ⟨⟨hasFraction, fraction⟩, hfraction, h⟩ := Option.bind_eq_some_iff.1 h
  obtain ⟨⟨hasExponent, exponent⟩, hexponent, h⟩ := Option.bind_eq_some_iff.1 h
  simp only at h hfraction hexponent
  have hexit : exponent = rest := by
    split at h <;> exact (Prod.mk.inj (Option.some.inj h)).2
  subst hexit
  obtain ⟨hconsumes, hmoreWhole⟩ := readWhole_local hwhole
  obtain ⟨hreachFraction, hmoreFraction⟩ := skipFraction_local hfraction
  obtain ⟨hreachExponent, hmoreExponent⟩ := skipExponent_local hexponent
  refine ⟨hreachExponent.after (hreachFraction.after hconsumes), fun hrest more => ?_⟩
  have hne := hreachExponent.ne_nil hrest
  have hstep := hmoreWhole (hreachFraction.ne_nil hne) more
  rw [readNumber, hstep]
  simp only [Option.bind_eq_bind, Option.bind_some, hmoreFraction hne more,
    hmoreExponent hrest more]
  split at h
  · next hunusable =>
    rw [if_pos hunusable, ← (Prod.mk.inj (Option.some.inj h)).1]
    rfl
  · next husable =>
    rw [if_neg husable, ← (Prod.mk.inj (Option.some.inj h)).1]
    rfl

theorem readWord_local {word : List Char} {value v : JsonValue} (hword : word ≠ [])
    (h : readWord word value cs = some (v, rest)) :
    Consumes cs rest ∧ ∀ more, readWord word value (cs ++ more) = some (v, rest ++ more) := by
  unfold readWord at h
  split at h
  · next hprefix =>
    obtain ⟨after, rfl⟩ := List.isPrefixOf_iff_prefix.1 hprefix
    obtain ⟨rfl, rfl⟩ := Prod.mk.inj (Option.some.inj h)
    rw [List.drop_left' (List.length_map _)]
    refine ⟨?_, fun more => ?_⟩
    · obtain ⟨before, last, rfl⟩ := (List.eq_nil_or_concat' word).resolve_left hword
      exact ⟨before.map some, last, by simp⟩
    · rw [readWord, List.append_assoc, if_pos, List.drop_left' (List.length_map _)]
      exact List.isPrefixOf_iff_prefix.2 (List.prefix_append _ _)
  · cases h

end Numbers

section Values

theorem skipBlanks_head {cs us : Input} {u : Option Char} (h : skipBlanks cs = u :: us) :
    isBlank u = false := by
  induction cs with
  | nil => cases h
  | cons v vs ih =>
    cases hblank : isBlank v with
    | true => exact ih (by simpa [skipBlanks, hblank] using h)
    | false =>
      rw [skipBlanks_of_not_blank hblank] at h
      rwa [← (List.cons.inj h).1]

theorem read_skipBlanks (limit : Nat) (cs : Input) :
    read limit (skipBlanks cs) = read limit cs := by
  cases limit with
  | zero => rfl
  | succ limit => rw [read, read, skipBlanks_skipBlanks]

theorem readItems_skipBlanks (limit : Nat) (cs : Input) :
    readItems limit (skipBlanks cs) = readItems limit cs := by
  cases limit with
  | zero => rfl
  | succ limit => rw [readItems, readItems, read_skipBlanks]

theorem readMembers_skipBlanks (limit : Nat) (cs : Input) :
    readMembers limit (skipBlanks cs) = readMembers limit cs := by
  cases limit with
  | zero => rfl
  | succ limit => rw [readMembers, readMembers, skipBlanks_skipBlanks]

/-- The input does not go on with this character, blanks aside. -/
def GoesOnWithout (close : Char) (cs : Input) : Prop := ∀ after, skipBlanks cs ≠ some close :: after

theorem read_items {limit : Nat} {cs : Input} (h : GoesOnWithout ']' cs) :
    read (limit + 1) (some '[' :: cs) =
      (readItems limit cs).map fun found => (array found.1, found.2) := by
  rw [read_array]
  split
  · next heq => exact absurd heq (h _)
  · cases readItems limit cs <;> rfl

theorem read_members {limit : Nat} {cs : Input} (h : GoesOnWithout '}' cs) :
    read (limit + 1) (some '{' :: cs) = (readMembers limit cs).map fun found =>
      ((found.1.map object).getD unusable, found.2) := by
  rw [read_object]
  split
  · next heq => exact absurd heq (h _)
  · cases readMembers limit cs <;> rfl

/-- What reading members comes to once the first key and value are read. -/
theorem readMembers_of {limit : Nat} {cs inside behindKey atValue behind : Input}
    {pieces : List Piece} {value : JsonValue} (hquote : skipBlanks cs = some '"' :: inside)
    (hpieces : readPieces inside = some (pieces, behindKey))
    (hcolon : skipBlanks behindKey = some ':' :: atValue)
    (hvalue : read limit atValue = some (value, behind)) :
    readMembers (limit + 1) cs =
      match skipBlanks behind with
      | some ',' :: more => do
        let (members, after) ← readMembers limit more
        return (((textOfPieces pieces).map (·, value)).bind fun m => members.map (m :: ·), after)
      | some '}' :: after => some (((textOfPieces pieces).map (·, value)).map ([·]), after)
      | _ => none := by
  rw [readMembers, hquote]
  simp only [hpieces, Option.bind_eq_bind, Option.bind_some, hcolon, hvalue]
  rfl

/-- What is no text, list, object or word is read as a number. -/
theorem read_other {limit : Nat} {u : Option Char} {cs : Input} (hblank : isBlank u = false)
    (h : u ∉ ['"', '[', '{', 'n', 't', 'f', '-'].map some) :
    read (limit + 1) (u :: cs) = readNumber false (u :: cs) := by
  rw [read, skipBlanks_of_not_blank hblank]
  split
  all_goals first
    | rfl
    | next heq =>
      obtain ⟨rfl, rfl⟩ := List.cons.inj heq
      exact absurd (by decide) h

/-- Reading goes through some of the input, and it goes the same way with more of it behind and with
a larger limit. -/
def ReadsOn {α : Type} (reading : Nat → Input → Option (α × Input)) (limit : Nat) : Prop :=
  ∀ {cs rest : Input} {a : α}, reading limit cs = some (a, rest) → Consumes cs rest ∧
    ∀ limit', limit ≤ limit' → ∀ more, reading limit' (cs ++ more) = some (a, rest ++ more)

/-- From its first unit on, a value is read alike with anything behind it. With nothing behind it
this is so of an object, which ends at its brace. -/
def LocalFrom (limit : Nat) (u : Option Char) (us rest : Input) (v : JsonValue) : Prop :=
  Consumes (u :: us) rest ∧ (rest ≠ [] ∨ u = some '{' → ∀ limit', limit ≤ limit' → ∀ more,
    read (limit' + 1) (u :: (us ++ more)) = some (v, rest ++ more))

section Kinds

variable {limit : Nat} {us rest : Input} {v : JsonValue}

theorem text_local (h : read (limit + 1) (some '"' :: us) = some (v, rest)) :
    LocalFrom limit (some '"') us rest v := by
  rw [read_text] at h
  obtain ⟨⟨pieces, _⟩, hpieces, heq⟩ := Option.bind_eq_some_iff.1 h
  obtain ⟨rfl, rfl⟩ := Prod.mk.inj (Option.some.inj heq)
  obtain ⟨hconsumes, hmore⟩ := readPieces_local hpieces
  refine ⟨hconsumes.append_left [some '"'], fun _ limit' _ more => ?_⟩
  rw [read_text, hmore more]
  rfl

theorem word_local {c : Char} {word : List Char} {value : JsonValue} (hword : word ≠ [])
    (hread : ∀ limit cs, read (limit + 1) (some c :: cs) = readWord word value cs)
    (h : read (limit + 1) (some c :: us) = some (v, rest)) :
    LocalFrom limit (some c) us rest v := by
  rw [hread] at h
  obtain ⟨hconsumes, hmore⟩ := readWord_local hword h
  refine ⟨hconsumes.append_left [some c], fun _ limit' _ more => ?_⟩
  rw [hread, hmore more]

theorem minus_local (h : read (limit + 1) (some '-' :: us) = some (v, rest)) :
    LocalFrom limit (some '-') us rest v := by
  rw [read_minus] at h
  obtain ⟨hconsumes, hmore⟩ := readNumber_local h
  refine ⟨hconsumes.append_left [some '-'], fun hrest limit' _ more => ?_⟩
  rw [read_minus, hmore (hrest.resolve_right (by decide)) more]

theorem other_local {u : Option Char} (hblank : isBlank u = false)
    (hu : u ∉ ['"', '[', '{', 'n', 't', 'f', '-'].map some)
    (h : read (limit + 1) (u :: us) = some (v, rest)) : LocalFrom limit u us rest v := by
  rw [read_other hblank hu] at h
  obtain ⟨hconsumes, hmore⟩ := readNumber_local h
  refine ⟨hconsumes, fun hrest limit' _ more => ?_⟩
  have hbrace : u ≠ some '{' := by
    rintro rfl
    exact hu (by decide)
  rw [read_other hblank hu]
  exact hmore (hrest.resolve_right hbrace) more

/-- Lists and objects are read alike: what is inside them, up to the character that closes them. -/
theorem nested_local {α : Type} {c close : Char} {empty : JsonValue} (made : α → JsonValue)
    {reading : Nat → Input → Option (α × Input)}
    (hskip : ∀ limit cs, reading limit (skipBlanks cs) = reading limit cs)
    (hclosed : ∀ limit cs after, skipBlanks cs = some close :: after →
      read (limit + 1) (some c :: cs) = some (empty, after))
    (hopen : ∀ limit cs, GoesOnWithout close cs → read (limit + 1) (some c :: cs) =
      (reading limit cs).map fun found => (made found.1, found.2))
    (hlocal : ReadsOn reading limit)
    (h : read (limit + 1) (some c :: us) = some (v, rest)) :
    LocalFrom limit (some c) us rest v := by
  by_cases hends : ∃ after, skipBlanks us = some close :: after
  · obtain ⟨after, hus⟩ := hends
    rw [hclosed limit us after hus] at h
    obtain ⟨rfl, rfl⟩ := Prod.mk.inj (Option.some.inj h)
    refine ⟨(Consumes.head c us).skip hus, fun _ limit' _ more => ?_⟩
    exact hclosed limit' (us ++ more) _ (skipBlanks_append hus more)
  · rw [hopen limit us (not_exists.1 hends)] at h
    obtain ⟨⟨found, _⟩, hfound, heq⟩ := Option.map_eq_some_iff.1 h
    obtain ⟨rfl, rfl⟩ := Prod.mk.inj heq
    obtain ⟨hconsumes, hmore⟩ := hlocal hfound
    have hsome : skipBlanks us ≠ [] := by
      rw [← hskip] at hfound
      exact (hlocal hfound).1.ne_nil
    obtain ⟨w, ws, hus⟩ := List.exists_cons_of_ne_nil hsome
    refine ⟨hconsumes.append_left [some c], fun _ limit' hlimit more => ?_⟩
    have hfurther : GoesOnWithout close (us ++ more) := by
      intro after hafter
      rw [skipBlanks_append hus more] at hafter
      obtain ⟨rfl, -⟩ := List.cons.inj hafter
      exact hends ⟨ws, hus⟩
    rw [hopen limit' (us ++ more) hfurther, hmore limit' hlimit more]
    rfl

theorem array_local (hlocal : ReadsOn readItems limit)
    (h : read (limit + 1) (some '[' :: us) = some (v, rest)) :
    LocalFrom limit (some '[') us rest v := by
  have hclosed : ∀ limit cs after, skipBlanks cs = some ']' :: after →
      read (limit + 1) (some '[' :: cs) = some (array [], after) := by
    intro limit cs after hcs
    rw [read_array, hcs]
    rfl
  exact nested_local array readItems_skipBlanks hclosed (fun _ _ => read_items) hlocal h

theorem object_local (hlocal : ReadsOn readMembers limit)
    (h : read (limit + 1) (some '{' :: us) = some (v, rest)) :
    LocalFrom limit (some '{') us rest v := by
  have hclosed : ∀ limit cs after, skipBlanks cs = some '}' :: after →
      read (limit + 1) (some '{' :: cs) = some (object [], after) := by
    intro limit cs after hcs
    rw [read_object, hcs]
    rfl
  exact nested_local (fun members => (members.map object).getD unusable) readMembers_skipBlanks
    hclosed (fun _ _ => read_members) hlocal h

end Kinds

/-- An object ends at its brace, whatever stands behind it. -/
def IsObject (cs : Input) : Prop := ∃ after, skipBlanks cs = some '{' :: after

mutual

/-- What reading a value goes through does not depend on what stands behind it, nor on a
limit that is large enough. -/
theorem read_local : ∀ (limit : Nat) {cs rest : Input} {v : JsonValue},
    read limit cs = some (v, rest) → Consumes cs rest ∧
      (rest ≠ [] ∨ IsObject cs → ∀ limit', limit ≤ limit' → ∀ more,
        read limit' (cs ++ more) = some (v, rest ++ more))
  | 0, _, _, _, h => by cases h
  | limit + 1, cs, rest, v, h => by
    cases hskip : skipBlanks cs with
    | nil =>
      rw [← read_skipBlanks, hskip] at h
      cases h
    | cons u us =>
    rw [← read_skipBlanks, hskip] at h
    suffices hhead : LocalFrom limit u us rest v by
      refine ⟨.of_skipBlanks (hskip ▸ hhead.1), fun hrest limit' hlimit more => ?_⟩
      obtain ⟨limit', rfl⟩ := Nat.exists_eq_add_one.2 (show 0 < limit' by omega)
      rw [← read_skipBlanks, skipBlanks_append hskip more]
      refine hhead.2 (hrest.imp_right ?_) limit' (by omega) more
      rintro ⟨after, hobject⟩
      exact (List.cons.inj (hskip.symm.trans hobject)).1
    by_cases hu : u ∈ ['"', '[', '{', 'n', 't', 'f', '-'].map some
    · simp only [List.map_cons, List.map_nil, List.mem_cons, List.not_mem_nil, or_false] at hu
      rcases hu with rfl | rfl | rfl | rfl | rfl | rfl | rfl
      · exact text_local h
      · exact array_local (readItems_local limit) h
      · exact object_local (readMembers_local limit) h
      · exact word_local (by decide) read_n h
      · exact word_local (by decide) read_t h
      · exact word_local (by decide) read_f h
      · exact minus_local h
    · exact other_local (skipBlanks_head hskip) hu h

theorem readItems_local : ∀ limit : Nat, ReadsOn readItems limit
  | 0, _, _, _, h => by cases h
  | limit + 1, cs, rest, items, h => by
    rw [readItems] at h
    obtain ⟨⟨item, behind⟩, hitem, h⟩ := Option.bind_eq_some_iff.1 h
    obtain ⟨hconsumes, hmoreItem⟩ := read_local limit hitem
    simp only at h
    split at h
    · next after hskip =>
      obtain ⟨⟨later, _⟩, hlater, heq⟩ := Option.bind_eq_some_iff.1 h
      obtain ⟨rfl, rfl⟩ := Prod.mk.inj (Option.some.inj heq)
      obtain ⟨hconsumesLater, hmoreLater⟩ := readItems_local limit hlater
      refine ⟨(hconsumes.skip hskip).trans hconsumesLater, fun limit' hlimit more => ?_⟩
      obtain ⟨limit', rfl⟩ := Nat.exists_eq_add_one.2 (show 0 < limit' by omega)
      rw [readItems, hmoreItem (Or.inl (ne_nil_of_skipBlanks hskip)) limit' (by omega) more]
      simp only [Option.bind_eq_bind, Option.bind_some, skipBlanks_append hskip more,
        hmoreLater limit' (by omega) more]
      rfl
    · next after hskip =>
      obtain ⟨rfl, rfl⟩ := Prod.mk.inj (Option.some.inj h)
      refine ⟨hconsumes.skip hskip, fun limit' hlimit more => ?_⟩
      obtain ⟨limit', rfl⟩ := Nat.exists_eq_add_one.2 (show 0 < limit' by omega)
      rw [readItems, hmoreItem (Or.inl (ne_nil_of_skipBlanks hskip)) limit' (by omega) more]
      simp only [Option.bind_eq_bind, Option.bind_some, skipBlanks_append hskip more]
      rfl
    · cases h

theorem readMembers_local : ∀ limit : Nat, ReadsOn readMembers limit
  | 0, _, _, _, h => by cases h
  | limit + 1, cs, rest, members, h => by
    rw [readMembers] at h
    split at h
    · next inside hquote =>
      obtain ⟨⟨pieces, behindKey⟩, hpieces, h⟩ := Option.bind_eq_some_iff.1 h
      obtain ⟨hconsumesKey, hmoreKey⟩ := readPieces_local hpieces
      simp only at h
      split at h
      · next atValue hcolon =>
        obtain ⟨⟨value, behind⟩, hvalue, h⟩ := Option.bind_eq_some_iff.1 h
        obtain ⟨hconsumesValue, hmoreValue⟩ := read_local limit hvalue
        have hconsumes : Consumes cs behind :=
          .of_skipBlanks (hquote ▸
            (((hconsumesKey.skip hcolon).trans hconsumesValue).append_left [some '"']))
        simp only at h
        split at h
        · next after hcomma =>
          obtain ⟨⟨later, _⟩, hlater, heq⟩ := Option.bind_eq_some_iff.1 h
          obtain ⟨rfl, rfl⟩ := Prod.mk.inj (Option.some.inj heq)
          obtain ⟨hconsumesLater, hmoreLater⟩ := readMembers_local limit hlater
          refine ⟨(hconsumes.skip hcomma).trans hconsumesLater, fun limit' hlimit more => ?_⟩
          obtain ⟨limit', rfl⟩ := Nat.exists_eq_add_one.2 (show 0 < limit' by omega)
          rw [readMembers_of (skipBlanks_append hquote more) (hmoreKey more)
            (skipBlanks_append hcolon more)
            (hmoreValue (Or.inl (ne_nil_of_skipBlanks hcomma)) limit' (by omega) more),
            skipBlanks_append hcomma more]
          simp only [hmoreLater limit' (by omega) more]
          rfl
        · next after hbrace =>
          obtain ⟨rfl, rfl⟩ := Prod.mk.inj (Option.some.inj h)
          refine ⟨hconsumes.skip hbrace, fun limit' hlimit more => ?_⟩
          obtain ⟨limit', rfl⟩ := Nat.exists_eq_add_one.2 (show 0 < limit' by omega)
          rw [readMembers_of (skipBlanks_append hquote more) (hmoreKey more)
            (skipBlanks_append hcolon more)
            (hmoreValue (Or.inl (ne_nil_of_skipBlanks hbrace)) limit' (by omega) more),
            skipBlanks_append hbrace more]
          rfl
        · cases h
      · cases h
    · cases h

end

end Values

end JsonValue
end TestBench
