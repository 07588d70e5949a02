import TestBench.Proofs.SpelledText

/-!
Values are read as they were spelled. Reading a value from its spelling gives
the value back and stops where the spelling ends, whatever stands there, as long
as a number is not continued by it. The limit that reading needs is bounded by
the number of values, and this by the length of the spelling.
-/
namespace TestBench.JsonValue

mutual

/-- Nothing in the value is without a spelling. -/
def Usable : JsonValue → Prop
  | array items => ItemsUsable items
  | object members => MembersUsable members
  | unusable => False
  | null | boolean _ | integer _ | text _ => True

def ItemsUsable : List JsonValue → Prop
  | [] => True
  | item :: rest => item.Usable ∧ ItemsUsable rest

def MembersUsable : List (String × JsonValue) → Prop
  | [] => True
  | (_, value) :: rest => value.Usable ∧ MembersUsable rest

end

theorem skipBlanks_of_not_blank {c : Option Char} (h : isBlank c = false) (rest : Input) :
    skipBlanks (c :: rest) = c :: rest := by
  rw [skipBlanks, List.dropWhile_cons, h]
  rfl

theorem size_pos (v : JsonValue) : 0 < v.size := by
  cases v <;> simp only [size] <;> omega

/-- What a spelling can begin with: no blank, and nothing that ends a list of items. -/
abbrev Begins (c : Char) : Prop := isBlank (some c) = false ∧ c ≠ ']'

theorem begins_of_isDigit {c : Char} (h : c.isDigit = true) : Begins c := by
  have hne : ∀ d : Char, d.isDigit = false → c ≠ d := by
    rintro d hd rfl
    rw [h] at hd
    cases hd
  refine ⟨?_, hne ']' rfl⟩
  simp only [isBlank, beq_eq_false_iff_ne.2 (hne ' ' rfl), beq_eq_false_iff_ne.2 (hne '\n' rfl),
    beq_eq_false_iff_ne.2 (hne '\t' rfl), beq_eq_false_iff_ne.2 (hne '\r' rfl), Bool.or_self]

theorem toString_int (n : Int) : (toString n).toList =
    if 0 ≤ n then Nat.toDigits 10 n.toNat else '-' :: Nat.toDigits 10 (-n).toNat := by
  rw [Int.toString_eq_repr, Int.repr_eq_if]
  split
  · exact Nat.toList_repr
  · rw [String.toList_append, Nat.toList_repr]
    rfl

theorem toDigits_begins (n : Nat) : ∃ c more, Nat.toDigits 10 n = c :: more ∧ Begins c ∧
    c.isDigit = true := by
  cases hdigits : Nat.toDigits 10 n with
  | nil => exact absurd hdigits Nat.toDigits_ne_nil
  | cons c more =>
    have hc : c.isDigit = true := Nat.isDigit_of_mem_toDigits (by decide) (by decide)
      (hdigits ▸ List.mem_cons_self)
    exact ⟨c, more, rfl, begins_of_isDigit hc, hc⟩

theorem spell_begins {v : JsonValue} (h : v.Usable) (tail : List Char) :
    ∃ c more, v.spell tail = c :: more ∧ Begins c := by
  cases v with
  | unusable => exact absurd h id
  | null => exact ⟨'n', _, rfl, by decide⟩
  | boolean b =>
    cases b
    · exact ⟨'f', _, rfl, by decide⟩
    · exact ⟨'t', _, rfl, by decide⟩
  | text s => exact ⟨'"', _, rfl, by decide⟩
  | array items => exact ⟨'[', _, rfl, by decide⟩
  | object members => exact ⟨'{', _, rfl, by decide⟩
  | integer n =>
    rw [spell, toString_int]
    split
    · obtain ⟨c, more, heq, hbegins, _⟩ := toDigits_begins n.toNat
      exact ⟨c, more ++ tail, by rw [heq]; rfl, hbegins⟩
    · exact ⟨'-', _, rfl, by decide⟩

section Reading

variable (limit : Nat) (cs : Input)

theorem read_text : read (limit + 1) (some '"' :: cs) = (do
    let (pieces, after) ← readPieces cs
    return (((textOfPieces pieces).map text).getD unusable, after)) := rfl

theorem read_array : read (limit + 1) (some '[' :: cs) = match skipBlanks cs with
    | some ']' :: after => some (array [], after)
    | _ => do
      let (items, after) ← readItems limit cs
      return (array items, after) := rfl

theorem read_object : read (limit + 1) (some '{' :: cs) = match skipBlanks cs with
    | some '}' :: after => some (object [], after)
    | _ => do
      let (members, after) ← readMembers limit cs
      return ((members.map object).getD unusable, after) := rfl

theorem read_digit {c : Char} (h : c.isDigit = true) :
    read (limit + 1) (some c :: cs) = readNumber false (some c :: cs) := by
  have hne : ∀ d : Char, d.isDigit = false → c ≠ d := by
    rintro d hd rfl
    rw [h] at hd
    cases hd
  rw [read, skipBlanks_of_not_blank (begins_of_isDigit h).1]
  split
  all_goals first
    | rfl
    | next heq => exact absurd (Option.some.inj (List.cons.inj heq).1) (hne _ rfl)

theorem read_minus : read (limit + 1) (some '-' :: cs) = readNumber true cs := rfl

theorem read_n : read (limit + 1) (some 'n' :: cs) = readWord "ull".toList null cs := rfl

theorem read_t : read (limit + 1) (some 't' :: cs) = readWord "rue".toList (boolean true) cs := rfl

theorem read_f :
    read (limit + 1) (some 'f' :: cs) = readWord "alse".toList (boolean false) cs := rfl

end Reading

theorem read_integer (limit : Nat) (n : Int) {rest : Input} (h : Ends rest) :
    read (limit + 1) ((toString n).toList.map some ++ rest) = some (integer n, rest) := by
  rw [toString_int]
  split
  · next hn =>
    obtain ⟨c, more, heq, _, hc⟩ := toDigits_begins n.toNat
    have hread : read (limit + 1) ((Nat.toDigits 10 n.toNat).map some ++ rest) =
        readNumber false ((Nat.toDigits 10 n.toNat).map some ++ rest) := by
      rw [heq]
      exact read_digit limit _ hc
    rw [hread, readNumber_toDigits false (by simp) h]
    simp [Int.toNat_of_nonneg hn]
  · next hn =>
    have hread := read_minus limit ((Nat.toDigits 10 (-n).toNat).map some ++ rest)
    rw [List.map_cons, List.cons_append, hread, readNumber_toDigits true (by omega) h]
    have hneg : -((-n).toNat : Int) = n := by omega
    simp only [if_true, hneg]

theorem ends_of_head {c : Char} {rest : Input}
    (h : c.isDigit = false ∧ c ≠ '.' ∧ c ≠ 'e' ∧ c ≠ 'E') : Ends (some c :: rest) := by
  intro d hd
  obtain rfl : c = d := by simpa using hd
  exact h

/-- The pieces of a key or a text, and what the reading goes on with. -/
theorem readPieces_spelled (s : String) (tail : List Char) (rest : Input) :
    readPieces ((s.toList.flatMap Escaped.escapeChar ++ ['"'] ++ tail).map some ++ rest) =
      some (s.toList.map .char, tail.map some ++ rest) := by
  rw [List.map_append, List.append_assoc, readPieces_encode]

theorem spellItems_begins {items : List JsonValue} (hitems : items ≠ []) (h : ItemsUsable items)
    (tail : List Char) : ∃ c more, spellItems items tail = c :: more ∧ Begins c := by
  cases items with
  | nil => exact absurd rfl hitems
  | cons item rest =>
    cases rest with
    | nil => exact spell_begins h.1 tail
    | cons next more => exact spell_begins h.1 _

/-- A member is read from its spelling, and reading goes on behind its value. -/
theorem readMembers_member (limit : Nat) (key : String) {value : JsonValue} {tail : List Char}
    {rest : Input} (hread : read limit ((value.spell tail).map some ++ rest) =
      some (value, tail.map some ++ rest)) :
    readMembers (limit + 1)
        ((Escaped.encode key.toList ++ ':' :: value.spell tail).map some ++ rest) =
      match skipBlanks (tail.map some ++ rest) with
      | some ',' :: more => do
        let (members, after) ← readMembers limit more
        return (members.map ((key, value) :: ·), after)
      | some '}' :: after => some (some [(key, value)], after)
      | _ => none := by
  change readMembers (limit + 1) (some '"' :: ((key.toList.flatMap Escaped.escapeChar ++ ['"'] ++
    ':' :: value.spell tail).map some ++ rest)) = _
  rw [readMembers, skipBlanks_of_not_blank rfl]
  simp only [readPieces_spelled, Option.bind_eq_bind, Option.bind_some, List.map_cons,
    List.cons_append]
  rw [skipBlanks_of_not_blank rfl]
  simp only [hread, Option.bind_some, textOfPieces_char, Option.map_some]
  rfl

theorem spellMembers_begins (first : String × JsonValue) (more : List (String × JsonValue))
    (tail : List Char) : ∃ cs, spellMembers (first :: more) tail = '"' :: cs := by
  cases more with
  | nil => exact ⟨_, rfl⟩
  | cons next later => exact ⟨_, rfl⟩

theorem readWord_spelled (word : List Char) (value : JsonValue) (tail : List Char) (rest : Input) :
    readWord word value ((word ++ tail).map some ++ rest) =
      some (value, tail.map some ++ rest) := by
  rw [readWord, List.map_append, List.append_assoc, if_pos]
  · rw [List.drop_left' (List.length_map _)]
  · exact List.isPrefixOf_iff_prefix.2 (List.prefix_append _ _)

mutual

/-- A value is read from its spelling, whatever follows it that does not continue a number. -/
theorem read_spell : ∀ (v : JsonValue) (limit : Nat) (tail : List Char) (rest : Input),
    v.Usable → 2 * v.size ≤ limit + 1 → Ends (tail.map some ++ rest) →
      read limit ((v.spell tail).map some ++ rest) = some (v, tail.map some ++ rest)
  | v, 0, _, _, _, hsize, _ => by
    have hpos := v.size_pos
    omega
  | null, limit + 1, tail, rest, _, _, _ => by
    change read (limit + 1) (some 'n' :: (("ull".toList ++ tail).map some ++ rest)) = _
    rw [read_n, readWord_spelled]
  | boolean true, limit + 1, tail, rest, _, _, _ => by
    change read (limit + 1) (some 't' :: (("rue".toList ++ tail).map some ++ rest)) = _
    rw [read_t, readWord_spelled]
  | boolean false, limit + 1, tail, rest, _, _, _ => by
    change read (limit + 1) (some 'f' :: (("alse".toList ++ tail).map some ++ rest)) = _
    rw [read_f, readWord_spelled]
  | integer n, limit + 1, tail, rest, _, _, hends => by
    rw [spell, List.map_append, List.append_assoc]
    exact read_integer limit n hends
  | text s, limit + 1, tail, rest, _, _, _ => by
    change read (limit + 1) (some '"' :: _) = _
    rw [read_text]
    change (readPieces
      ((s.toList.flatMap Escaped.escapeChar ++ ['"'] ++ tail).map some ++ rest)).bind _ = _
    rw [readPieces_spelled, Option.bind_some]
    simp only [textOfPieces_char]
    rfl
  | array items, limit + 1, tail, rest, h, hsize, _ => by
    change read (limit + 1) (some '[' :: ((spellItems items (']' :: tail)).map some ++ rest)) = _
    rw [read_array]
    by_cases hitems : items = []
    · subst hitems
      rfl
    · obtain ⟨c, more, heq, hblank, hclose⟩ := spellItems_begins hitems h (']' :: tail)
      have hread := readItems_spell items limit tail rest hitems h (by rw [size] at hsize; omega)
      rw [heq] at hread ⊢
      rw [List.map_cons, List.cons_append] at hread ⊢
      rw [skipBlanks_of_not_blank hblank]
      split
      · next heq' => exact absurd (Option.some.inj (List.cons.inj heq').1) hclose
      · rw [hread]
        rfl
  | object members, limit + 1, tail, rest, h, hsize, _ => by
    change read (limit + 1)
      (some '{' :: ((spellMembers members ('}' :: tail)).map some ++ rest)) = _
    rw [read_object]
    cases members with
    | nil => rfl
    | cons first more =>
      have hread := readMembers_spell (first :: more) limit tail rest (by simp) h
        (by rw [size] at hsize; omega)
      obtain ⟨cs, heq⟩ := spellMembers_begins first more ('}' :: tail)
      rw [heq] at hread ⊢
      rw [List.map_cons, List.cons_append] at hread ⊢
      rw [skipBlanks_of_not_blank rfl]
      simp only [hread]
      rfl

theorem readItems_spell :
    ∀ (items : List JsonValue) (limit : Nat) (tail : List Char) (rest : Input),
      items ≠ [] → ItemsUsable items → 2 * sizeItems items ≤ limit →
      readItems limit ((spellItems items (']' :: tail)).map some ++ rest) =
        some (items, tail.map some ++ rest)
  | [], _, _, _, hitems, _, _ => absurd rfl hitems
  | item :: more, 0, _, _, _, _, hsize => by
    have hpos := item.size_pos
    rw [sizeItems] at hsize
    omega
  | [item], limit + 1, tail, rest, _, h, hsize => by
    have hread := read_spell item limit (']' :: tail) rest h.1
      (by rw [sizeItems] at hsize; omega) (ends_of_head (by decide))
    rw [spellItems, readItems, hread]
    rfl
  | item :: next :: more, limit + 1, tail, rest, _, h, hsize => by
    have hread := read_spell item limit (',' :: spellItems (next :: more) (']' :: tail)) rest h.1
      (by rw [sizeItems] at hsize; omega) (ends_of_head (by decide))
    have hpos := item.size_pos
    have hlater := readItems_spell (next :: more) limit tail rest (by simp) h.2
      (by rw [sizeItems] at hsize; omega)
    rw [spellItems, readItems, hread]
    change (readItems limit ((spellItems (next :: more) (']' :: tail)).map some ++ rest)).bind _ = _
    rw [hlater]
    rfl

theorem readMembers_spell : ∀ (members : List (String × JsonValue)) (limit : Nat)
    (tail : List Char) (rest : Input), members ≠ [] → MembersUsable members →
      2 * sizeMembers members ≤ limit →
        readMembers limit ((spellMembers members ('}' :: tail)).map some ++ rest) =
          some (some members, tail.map some ++ rest)
  | [], _, _, _, hmembers, _, _ => absurd rfl hmembers
  | (_, value) :: more, 0, _, _, _, _, hsize => by
    have hpos := value.size_pos
    rw [sizeMembers] at hsize
    omega
  | [(key, value)], limit + 1, tail, rest, _, h, hsize => by
    have hread := read_spell value limit ('}' :: tail) rest h.1
      (by rw [sizeMembers] at hsize; omega) (ends_of_head (by decide))
    rw [spellMembers, readMembers_member limit key hread]
    rfl
  | (key, value) :: next :: more, limit + 1, tail, rest, _, h, hsize => by
    have hread := read_spell value limit (',' :: spellMembers (next :: more) ('}' :: tail)) rest h.1
      (by rw [sizeMembers] at hsize; omega) (ends_of_head (by decide))
    have hpos := value.size_pos
    have hlater := readMembers_spell (next :: more) limit tail rest (by simp) h.2
      (by rw [sizeMembers] at hsize; omega)
    rw [spellMembers, readMembers_member limit key hread]
    change (readMembers limit ((spellMembers (next :: more) ('}' :: tail)).map some ++ rest)).bind
      _ = _
    rw [hlater]
    rfl

end

theorem encode_length (cs : List Char) : 2 ≤ (Escaped.encode cs).length := by
  simp [Escaped.encode]

mutual

/-- Every value takes at least one character, and two if values stand inside it. -/
theorem size_le_spell : ∀ (v : JsonValue) (tail : List Char), v.Usable →
    2 * v.size + tail.length ≤ (v.spell tail).length + 1
  | unusable, _, h => absurd h id
  | null, tail, _ => by
    simp only [size, spell, List.length_append]
    have hlength : "null".toList.length = 4 := rfl
    omega
  | boolean b, tail, _ => by
    simp only [size, spell, List.length_append]
    have hlength : 4 ≤ (literal b).length := by cases b <;> decide
    omega
  | integer n, tail, _ => by
    obtain ⟨c, more, heq, _⟩ := spell_begins (v := integer n) trivial []
    simp only [spell, List.append_nil] at heq
    simp only [size, spell, List.length_append, heq, List.length_cons]
    omega
  | text s, tail, _ => by
    have hlength := encode_length s.toList
    simp only [size, spell, List.length_append]
    omega
  | array [], tail, _ => by
    simp only [size, sizeItems, spell, spellItems, List.length_cons]
    omega
  | array (item :: more), tail, h => by
    have hitems := sizeItems_le_spell (item :: more) (']' :: tail) (by simp) h
    simp only [size, spell, List.length_cons] at hitems ⊢
    omega
  | object [], tail, _ => by
    simp only [size, sizeMembers, spell, spellMembers, List.length_cons]
    omega
  | object (first :: more), tail, h => by
    have hmembers := sizeMembers_le_spell (first :: more) ('}' :: tail) (by simp) h
    simp only [size, spell, List.length_cons] at hmembers ⊢
    omega

theorem sizeItems_le_spell : ∀ (items : List JsonValue) (tail : List Char), items ≠ [] →
    ItemsUsable items → 2 * sizeItems items + tail.length ≤ (spellItems items tail).length + 1
  | [], _, hitems, _ => absurd rfl hitems
  | [item], tail, _, h => by
    have hitem := size_le_spell item tail h.1
    simp only [sizeItems, spellItems]
    omega
  | item :: next :: more, tail, _, h => by
    have hitem := size_le_spell item (',' :: spellItems (next :: more) tail) h.1
    have hlater := sizeItems_le_spell (next :: more) tail (by simp) h.2
    rw [sizeItems, spellItems]
    rw [List.length_cons] at hitem
    omega

theorem sizeMembers_le_spell : ∀ (members : List (String × JsonValue)) (tail : List Char),
    members ≠ [] → MembersUsable members →
      2 * sizeMembers members + tail.length ≤ (spellMembers members tail).length + 1
  | [], _, hmembers, _ => absurd rfl hmembers
  | [(key, value)], tail, _, h => by
    have hvalue := size_le_spell value tail h.1
    simp only [sizeMembers, spellMembers, List.length_append, List.length_cons]
    omega
  | (key, value) :: next :: more, tail, _, h => by
    have hvalue := size_le_spell value (',' :: spellMembers (next :: more) tail) h.1
    have hlater := sizeMembers_le_spell (next :: more) tail (by simp) h.2
    rw [sizeMembers, spellMembers, List.length_append, List.length_cons]
    rw [List.length_cons] at hvalue
    omega

end

/-- The bytes of a spelling give back the value. -/
theorem ofBytes?_print {v : JsonValue} (h : v.Usable) :
    ofBytes? (Utf8.encode v.print) = some v := by
  have hsize := size_le_spell v [] h
  have hread := read_spell v ((v.print.map some).length + 1) [] [] h
    (by rw [List.length_map, print]; simp only [List.length_nil] at hsize; omega)
    (fun c hc => by cases hc)
  rw [List.append_nil] at hread
  rw [ofBytes?, Utf8.decode_encode]
  simp only [print] at hread ⊢
  rw [hread]
  rfl

end TestBench.JsonValue
