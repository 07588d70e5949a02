import TestBench.Proofs.LexedParts
import TestBench.Proofs.SpelledNames

/-!
Spellings of tokens. Digits may have zeros in front and underscores between
them, and a character of a text may be written as it is unless it has to be
escaped. However the tokens of a list are written, with blanks and comments
between them, the list is read back.
-/
namespace TestBench.Token

/-- What may be written for a character between the quotes. -/
inductive CharSpelled : Char → List Char → Prop
  | quote : CharSpelled '"' ['\\', '"']
  | backslash : CharSpelled '\\' ['\\', '\\']
  | newline : CharSpelled '\n' ['\\', 'n']
  | tab : CharSpelled '\t' ['\\', 't']
  | plain {c : Char} : c ≠ '"' → c ≠ '\\' → c ≠ '\n' → CharSpelled c [c]

/-- What may be written for a token. -/
inductive Spelled : TokenKind → List Char → Prop
  | keyword (word : Keyword) : Spelled (.keyword word) word.spelling.toList
  | operator (sign : Operator) : Spelled (.operator sign) sign.spelling.toList
  | punctuation (sign : Punctuation) : Spelled (.punctuation sign) sign.spelling.toList
  | identifier {name : String} {c : Char} {more : List Char} : name.toList = c :: more →
      startsName c = true → (∀ d ∈ more, continuesName d = true) →
        (∀ word : Keyword, word.spelling ≠ name) → Spelled (.identifier name) (c :: more)
  | integer {n : Word} {d : Char} {more : List Char} (zeros : Nat) : 0 ≤ n.val →
      isDigit d = true → (∀ e ∈ more, isDigit e = true ∨ e = '_') →
        (d :: more).filter (· != '_') = List.replicate zeros '0' ++ Nat.toDigits 10 n.val.toNat →
          Spelled (.integer n) (d :: more)
  | text {value : String} {pieces : List (List Char)} :
      List.Forall₂ CharSpelled value.toList pieces →
        Spelled (.text value) ('"' :: (pieces.flatten ++ ['"']))

/-- Blanks, and comments with the line feed that ends them, in any order. -/
inductive Gap : List Char → Prop
  | nil : Gap []
  | blank {c : Char} {gap : List Char} : isBlank c = true → Gap gap → Gap (c :: gap)
  | comment {body gap : List Char} : '\n' ∉ body → Gap gap →
      Gap ('/' :: '/' :: (body ++ '\n' :: gap))

/-- What may be written for tokens in this order: between two of them is a gap that begins with
a blank. -/
inductive SpelledAll : List TokenKind → List Char → Prop
  | nil : SpelledAll [] []
  | last {kind : TokenKind} {text : List Char} : Spelled kind text → SpelledAll [kind] text
  | cons {kind next : TokenKind} {kinds : List TokenKind} {text gap rest : List Char} {c : Char} :
      Spelled kind text → isBlank c = true → Gap gap → SpelledAll (next :: kinds) rest →
        SpelledAll (kind :: next :: kinds) (text ++ c :: (gap ++ rest))

section Names

theorem ofSpelling?_spelling (word : Keyword) : Keyword.ofSpelling? word.spelling = some word := by
  cases word <;> rfl

theorem ofSpelling?_eq_none {name : String} (h : ∀ word : Keyword, word.spelling ≠ name) :
    Keyword.ofSpelling? name = none := by
  unfold Keyword.ofSpelling?
  rw [List.find?_eq_none]
  intro word _ heq
  exact h word (by simpa using heq)

/-- The characters of a keyword are those of a name. -/
theorem spelling_isName (word : Keyword) : ∃ c more, word.spelling.toList = c :: more ∧
    startsName c = true ∧ ∀ d ∈ more, continuesName d = true := by
  cases word <;> exact ⟨_, _, rfl, by decide, List.all_eq_true.1 (by decide)⟩

end Names

section Alone

variable {kind : TokenKind} {c : Char} {more : List Char}

/-- What is read as one token where nothing follows is this token before any blank. -/
theorem Spells.steady (h : Spells (c :: more) kind) :
    '\n' ∉ more ∧ Steady (some kind) c more [] := by
  obtain ⟨-, d, ds, htext, halone⟩ := h
  obtain ⟨rfl, rfl⟩ := List.cons.inj htext
  have hnone : (lexeme 0 c more).faults = [] := by rw [halone]
  obtain ⟨read, hmore, hnewline, hsteady⟩ := lexeme_steady hnone
  rw [halone, List.append_nil] at hmore
  rw [halone, ← hmore] at hsteady
  exact ⟨hmore ▸ hnewline, hsteady⟩

theorem spells_run {p : Char → Bool} {read : List Char → Except LexicalFault TokenKind}
    (hlexeme : ∀ start, lexeme start c more = run start c more p read)
    (hmore : ∀ d ∈ more, p d = true) (hread : read (c :: more) = .ok kind)
    (hkind : kind ≠ .endOfFile) : Spells (c :: more) kind := by
  refine ⟨hkind, c, more, rfl, ?_⟩
  intro start
  rw [hlexeme, run, List.takeWhile_eq_self_iff.2 hmore, List.dropWhile_eq_nil_iff.2 hmore, hread]

theorem digit_not_startsName (h : isDigit c = true) : startsName c = false := by
  have hle : c ≤ '9' := by
    simp only [isDigit, Bool.and_eq_true, decide_eq_true_eq] at h
    exact h.2
  have hbelow : ∀ d : Char, '9' < d → ¬d ≤ c := by
    intro d hd hge
    exact Char.not_le.2 hd (Char.le_trans hge hle)
  have hunderscore : c ≠ '_' := by
    rintro rfl
    exact absurd hle (by decide)
  simp [startsName, isLetter, hbelow 'a' (by decide), hbelow 'A' (by decide), hunderscore]

theorem spells_name (hfirst : startsName c = true) (hmore : ∀ d ∈ more, continuesName d = true)
    (hread : readName (c :: more) = .ok kind) (hkind : kind ≠ .endOfFile) :
    Spells (c :: more) kind := by
  have hblank : ¬isBlank c = true := by
    intro hblank
    have hnot := (blank_ends hblank).1
    rw [continuesName_of_startsName hfirst] at hnot
    cases hnot
  have hdigit : ¬isDigit c = true := by
    intro hdigit
    rw [digit_not_startsName hdigit] at hfirst
    cases hfirst
  have hslash : c ≠ '/' := by
    rintro rfl
    exact absurd hfirst (by decide)
  have hquote : c ≠ '"' := by
    rintro rfl
    exact absurd hfirst (by decide)
  refine spells_run (fun start => ?_) hmore hread hkind
  rw [lexeme, if_neg hblank, if_neg (fun h => hslash h.1), if_neg hquote, if_neg hdigit,
    if_pos hfirst]

theorem spells_integer (hfirst : isDigit c = true) (hmore : ∀ d ∈ more, continuesInteger d = true)
    (hread : readInteger (c :: more) = .ok kind) (hkind : kind ≠ .endOfFile) :
    Spells (c :: more) kind := by
  have hblank : ¬isBlank c = true := by
    intro hblank
    have hnot := (blank_ends hblank).2
    simp [continuesInteger, hfirst] at hnot
  have hslash : c ≠ '/' := by
    rintro rfl
    exact absurd hfirst (by decide)
  have hquote : c ≠ '"' := by
    rintro rfl
    exact absurd hfirst (by decide)
  refine spells_run (fun start => ?_) hmore hread hkind
  rw [lexeme, if_neg hblank, if_neg (fun h => hslash h.1), if_neg hquote, if_pos hfirst]

/-- Zeros in front of the digits of a number do not change it. -/
theorem decimal_toDigits (zeros n : Nat) :
    decimal (List.replicate zeros '0' ++ Nat.toDigits 10 n) = n := by
  have hzeros : Nat.ofDigitChars 10 (List.replicate zeros '0') 0 = 0 := by
    induction zeros with
    | zero => rfl
    | succ zeros ih => exact ih
  calc decimal (List.replicate zeros '0' ++ Nat.toDigits 10 n)
    _ = Nat.ofDigitChars 10 (List.replicate zeros '0' ++ Nat.toDigits 10 n) 0 := rfl
    _ = Nat.ofDigitChars 10 (Nat.toDigits 10 n) 0 := by rw [Nat.ofDigitChars_append, hzeros]
    _ = n := Nat.ofDigitChars_toDigits (by decide) (by decide)

theorem readInteger_eq {n : Word} {cs : List Char} {zeros : Nat} (hn : 0 ≤ n.val)
    (h : cs.filter (· != '_') = List.replicate zeros '0' ++ Nat.toDigits 10 n.val.toNat) :
    readInteger cs = .ok (.integer n) := by
  have hvalue : ((decimal (cs.filter (· != '_')) : Nat) : Int) = n.val := by
    rw [h, decimal_toDigits, Int.toNat_of_nonneg hn]
  -- The value must not be opened: deciding whether it is in range counts up to the limit.
  delta readInteger
  dsimp only
  rw [hvalue, Word.ofInt?_val]
  rfl

end Alone

section Texts

theorem read_piece {c : Char} {piece : List Char} (h : CharSpelled c piece) (start pos : Nat)
    (cs : List Char) : Literal.read start pos (piece ++ cs) =
      (Literal.read start (pos + byteLength piece) cs).push c := by
  cases h with
  | quote => exact Literal.read_escape start pos '"' cs
  | backslash => exact Literal.read_escape start pos '\\' cs
  | newline => exact Literal.read_escape start pos 'n' cs
  | tab => exact Literal.read_escape start pos 't' cs
  | plain hquote hescape hnewline => exact Literal.read_plain hnewline hquote hescape start pos cs

/-- Between the quotes, each character is read from what is written for it. -/
theorem read_pieces {value : List Char} {pieces : List (List Char)}
    (h : List.Forall₂ CharSpelled value pieces) (start pos : Nat) :
    Literal.read start pos (pieces.flatten ++ ['"']) =
      ⟨value, true, [], pos + byteLength (pieces.flatten ++ ['"']), []⟩ := by
  induction h generalizing pos with
  | nil => rfl
  | @cons c piece value pieces hc hmore ih =>
    rw [List.flatten_cons, List.append_assoc, read_piece hc, ih, byteLength_append piece,
      Nat.add_assoc]
    rfl

end Texts

theorem Spelled.spells {kind : TokenKind} {text : List Char} (h : Spelled kind text) :
    Spells text kind := by
  cases h with
  | keyword word =>
    obtain ⟨c, more, htext, hfirst, hmore⟩ := spelling_isName word
    rw [htext]
    refine spells_name hfirst hmore ?_ nofun
    rw [readName, ← htext, String.ofList_toList, ofSpelling?_spelling]
  | operator sign => cases sign <;> exact ⟨nofun, _, _, rfl, fun start => rfl⟩
  | punctuation sign => cases sign <;> exact ⟨nofun, _, _, rfl, fun start => rfl⟩
  | @identifier name c more htext hfirst hmore hother =>
    refine spells_name hfirst hmore ?_ nofun
    rw [readName, ← htext, String.ofList_toList, ofSpelling?_eq_none hother]
  | integer zeros hn hfirst hmore hdigits =>
    refine spells_integer hfirst (fun e he => ?_) (readInteger_eq hn hdigits) nofun
    rcases hmore e he with hdigit | rfl
    · simp [continuesInteger, hdigit]
    · rfl
  | @text value pieces hpieces =>
    refine ⟨nofun, '"', _, rfl, fun start => ?_⟩
    have hlexeme : lexeme start '"' (pieces.flatten ++ ['"']) =
        (Literal.read start (start + 1) (pieces.flatten ++ ['"'])).lexeme := rfl
    rw [hlexeme, read_pieces hpieces, Literal.lexeme]
    simp only [if_true, String.ofList_toList]
    exact congrArg (Lexeme.mk _ _ · _) (Nat.add_assoc start 1 _)

namespace Lexed

variable {parts : List Part}

/-- A token that ends the text or stands before a blank. -/
theorem cons_spelled {kind : TokenKind} {text : List Char} (h : Spelled kind text)
    (hparts : Lexed parts) (hnext : ∀ c ∈ (texts parts).head?, isBlank c = true) :
    Lexed (⟨some kind, text⟩ :: parts) := by
  obtain ⟨c, more, rfl, -⟩ := h.spells.alone
  obtain ⟨hnewline, hsteady⟩ := h.spells.steady
  refine .cons hnewline (hsteady.before ?_) hparts
  intro d hd
  exact Or.inr (Or.inr ⟨rfl, hnext d hd⟩)

/-- A gap before parts is made of parts that are no tokens. -/
theorem gap_before {gap : List Char} (h : Gap gap) (hparts : Lexed parts) :
    ∃ more, texts more = gap ++ texts parts ∧ Lexed more ∧
      more.filterMap (·.kind) = parts.filterMap (·.kind) := by
  induction h with
  | nil => exact ⟨parts, rfl, hparts, rfl⟩
  | @blank c gap hblank hgap ih =>
    obtain ⟨more, htexts, hmore, hkinds⟩ := ih
    refine ⟨⟨none, [c]⟩ :: more, ?_, .cons List.not_mem_nil (steady_blank hblank _) hmore, hkinds⟩
    rw [texts_cons, htexts]
    rfl
  | @comment body gap hbody hgap ih =>
    obtain ⟨more, htexts, hmore, hkinds⟩ := ih
    have hfeed : Lexed (⟨none, ['\n']⟩ :: more) :=
      .cons List.not_mem_nil (steady_blank rfl _) hmore
    have hcomment : Steady none '/' ('/' :: body) (texts (⟨none, ['\n']⟩ :: more)) :=
      steady_comment hbody (Or.inr rfl)
    refine ⟨⟨none, '/' :: '/' :: body⟩ :: ⟨none, ['\n']⟩ :: more, ?_, .cons ?_ hcomment hfeed,
      hkinds⟩
    · simp [htexts]
    · simp [hbody]

/-- What is written for tokens is made of parts that are these tokens, blanks and comments. -/
theorem of_spelledAll {kinds : List TokenKind} {text : List Char} (h : SpelledAll kinds text) :
    ∃ parts, texts parts = text ∧ Lexed parts ∧ parts.filterMap (·.kind) = kinds := by
  induction h with
  | nil => exact ⟨[], rfl, .nil, rfl⟩
  | @last kind text htext =>
    refine ⟨[⟨some kind, text⟩], by simp, cons_spelled htext .nil ?_, rfl⟩
    intro c hc
    cases hc
  | @cons kind next kinds text gap rest c htext hblank hgap _ ih =>
    obtain ⟨parts, hrest, hparts, hkinds⟩ := ih
    obtain ⟨later, hlater, hlexed, hsame⟩ := gap_before (.blank hblank hgap) hparts
    rw [List.cons_append] at hlater
    refine ⟨⟨some kind, text⟩ :: later, ?_, cons_spelled htext hlexed ?_, ?_⟩
    · rw [texts_cons, hlater, hrest]
    · intro d hd
      rw [hlater] at hd
      obtain rfl := Option.some.inj hd
      exact hblank
    · rw [List.filterMap_cons, hsame, hkinds]

end Lexed

theorem tokensFrom_kinds (pos : Nat) (parts : List Part) :
    (tokensFrom pos parts).map (·.node) = parts.filterMap (·.kind) := by
  induction parts generalizing pos with
  | nil => rfl
  | cons p parts ih =>
    rw [tokensFrom, List.map_append, ih, List.filterMap_cons]
    cases p.kind <;> rfl

/-- However the tokens of a list are written, exactly they are read back. -/
theorem scan_spelledAll {kinds : List TokenKind} {text : List Char} (h : SpelledAll kinds text) :
    ∃ tokens, scan text = .ok tokens ∧ tokens.map (·.node) = kinds ++ [.endOfFile] := by
  obtain ⟨parts, htexts, hparts, hkinds⟩ := Lexed.of_spelledAll h
  refine ⟨_, Lexed.scan_eq_ok_iff.2 ⟨parts, htexts, hparts, rfl⟩, ?_⟩
  rw [List.map_append, tokensFrom_kinds, hkinds]
  rfl

/-- A comparison with a comment after its sign, escapes, underscores and a zero in front. -/
theorem scan_spelledAll_comparison :
    SpelledAll [.identifier "x_1", .operator .eqEq, .text "\"\t\n", .operator .star,
        .integer ⟨70, by decide, by decide⟩]
      "x_1 == // ==\n \"\\\"\t\\n\" *\t0_7_0_".toList ∧
    ∃ tokens, scan "x_1 == // ==\n \"\\\"\t\\n\" *\t0_7_0_".toList = .ok tokens ∧
      tokens.map (·.node) = [.identifier "x_1", .operator .eqEq, .text "\"\t\n", .operator .star,
        .integer ⟨70, by decide, by decide⟩, .endOfFile] := by
  have hname : Spelled (.identifier "x_1") "x_1".toList :=
    .identifier rfl (by decide) (List.all_eq_true.1 (by decide)) fun word => by
      cases word <;> decide
  have hpieces : List.Forall₂ CharSpelled "\"\t\n".toList [['\\', '"'], ['\t'], ['\\', 'n']] :=
    .cons .quote (.cons (.plain (by decide) (by decide) (by decide)) (.cons .newline .nil))
  have htext : Spelled (.text "\"\t\n") "\"\\\"\t\\n\"".toList := .text hpieces
  have hdigits : ∀ e ∈ ['_', '7', '_', '0', '_'], isDigit e = true ∨ e = '_' := by
    simp [isDigit]
  have hnumber : Spelled (.integer ⟨70, by decide, by decide⟩) "0_7_0_".toList :=
    .integer 1 (by decide) (by decide) hdigits (by decide)
  have hbody : '\n' ∉ " ==".toList := by decide
  have hcomment : Gap "// ==\n ".toList := .comment hbody (.blank rfl .nil)
  have h : SpelledAll [.identifier "x_1", .operator .eqEq, .text "\"\t\n", .operator .star,
        .integer ⟨70, by decide, by decide⟩]
      "x_1 == // ==\n \"\\\"\t\\n\" *\t0_7_0_".toList :=
    .cons hname (c := ' ') rfl .nil <| .cons (.operator .eqEq) (c := ' ') rfl hcomment <|
      .cons htext (c := ' ') rfl .nil <| .cons (.operator .star) (c := '\t') rfl .nil <|
        .last hnumber
  exact ⟨h, scan_spelledAll h⟩

end TestBench.Token
