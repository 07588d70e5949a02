import TestBench.Proofs.LexedText

/-!
A text cut into its lexemes. Where one lexeme ends depends only on the character
after it: nothing, a line feed or the same character may follow instead, and a
token also ends at any blank. A text is accepted exactly if it can be cut into
parts of which each is a lexeme before what follows it, and its tokens are then
those of the parts. So parts that stand beside each other in one text may be cut
off or put beside others.
-/
namespace TestBench.Token

/-- After a lexeme of this kind `rest'` may stand in place of `rest`: it is empty or begins alike,
with a line feed, or after a token with a blank. -/
def Replaces (kind : Option TokenKind) (rest rest' : List Char) : Prop :=
  ∀ c ∈ rest'.head?, rest.head? = some c ∨ c = '\n' ∨ (kind.isSome ∧ isBlank c)

section Replaces

variable {kind : Option TokenKind} {rest rest' rest'' : List Char}

theorem replaces_nil (kind : Option TokenKind) (rest : List Char) : Replaces kind rest [] := by
  intro c hc
  cases hc

theorem Replaces.refl (kind : Option TokenKind) (rest : List Char) : Replaces kind rest rest :=
  fun _ hc => Or.inl hc

theorem replaces_newline (kind : Option TokenKind) (rest more : List Char) :
    Replaces kind rest ('\n' :: more) := by
  intro c hc
  obtain rfl := Option.some.inj hc
  exact Or.inr (Or.inl rfl)

/-- What begins in the same way may always follow instead. -/
theorem Replaces.of_head (h : rest'.head? = rest.head?) : Replaces kind rest rest' := by
  intro c hc
  exact Or.inl (h ▸ hc)

theorem Replaces.trans (h : Replaces kind rest rest') (h' : Replaces kind rest' rest'') :
    Replaces kind rest rest'' := by
  intro c hc
  rcases h' c hc with hsame | hother
  · exact h c hsame
  · exact Or.inr hother

end Replaces

/-- The lexeme `c :: more` is of this kind before `rest` and all that may stand in its place. -/
def Steady (kind : Option TokenKind) (c : Char) (more rest : List Char) : Prop :=
  ∀ start rest', Replaces kind rest rest' →
    lexeme start c (more ++ rest') = ⟨kind, [], start + byteLength (c :: more), rest'⟩

theorem Steady.before {kind : Option TokenKind} {c : Char} {more rest rest' : List Char}
    (h : Steady kind c more rest) (hrest : Replaces kind rest rest') : Steady kind c more rest' :=
  fun start rest'' hrest' => h start rest'' (hrest.trans hrest')

section Blanks

theorem steady_blank {c : Char} (h : isBlank c = true) (rest : List Char) :
    Steady none c [] rest := by
  intro start rest' _
  rw [lexeme, if_pos h, byteLength_cons, utf8Size_of_isBlank h]
  rfl

/-- The characters up to the first that does not satisfy `p`. -/
theorem takeWhile_stops {p : Char → Bool} {more rest : List Char} (hmore : ∀ c ∈ more, p c = true)
    (hrest : ∀ c ∈ rest.head?, p c = false) :
    (more ++ rest).takeWhile p = more ∧ (more ++ rest).dropWhile p = rest := by
  rw [List.takeWhile_append_of_pos hmore, List.dropWhile_append_of_pos hmore]
  cases rest with
  | nil => simp
  | cons c rest =>
    have hc : p c = false := hrest c rfl
    simp [hc]

theorem steady_comment {body rest : List Char} (hbody : '\n' ∉ body)
    (hrest : rest = [] ∨ rest.head? = some '\n') : Steady none '/' ('/' :: body) rest := by
  intro start rest' hreplaces
  have hplain : ∀ c ∈ '/' :: body, (c != '\n') = true := by
    intro c hc
    have hne : c ≠ '\n' := by
      rintro rfl
      simp [hbody] at hc
    simpa using hne
  have hstop : ∀ c ∈ rest'.head?, (c != '\n') = false := by
    intro c hc
    have hnewline : c = '\n' := by
      rcases hreplaces c hc with hsame | hnewline | ⟨hnone, -⟩
      · rcases hrest with rfl | hhead
        · cases hsame
        · exact Option.some.inj (hsame.symm.trans hhead)
      · exact hnewline
      · cases hnone
    simp [hnewline]
  obtain ⟨htake, hdrop⟩ := takeWhile_stops hplain hstop
  rw [lexeme, if_neg (by decide), if_pos ⟨rfl, rfl⟩, htake, hdrop]
  exact congrArg (Lexeme.mk _ _ · _) (Nat.add_assoc start 1 _)

end Blanks

namespace Literal

/-- A closed literal ends at its quote, whatever follows. -/
theorem read_append {start pos : Nat} {text : List Char} (more : List Char)
    (h : (read start pos text).closed = true) : read start pos (text ++ more) =
      { read start pos text with rest := (read start pos text).rest ++ more } := by
  fun_induction read start pos text with
  | case1 => cases h
  | case2 => cases h
  | case3 pos rest =>
    rw [List.cons_append, read.eq_def]
    rfl
  | case4 => cases h
  | case5 pos e rest stop d hd _ _ ih =>
    rw [List.cons_append, List.cons_append, read_escape, hd]
    have hstop : pos + byteLength ['\\', e] = stop := (Nat.add_assoc pos 1 _).symm
    rw [hstop]
    dsimp only
    rw [ih h]
    rfl
  | case6 pos e rest stop hd _ _ ih =>
    rw [List.cons_append, List.cons_append, read_escape, hd]
    have hstop : pos + byteLength ['\\', e] = stop := (Nat.add_assoc pos 1 _).symm
    rw [hstop]
    dsimp only
    rw [ih h]
    rfl
  | case7 pos c rest hnewline hquote hescape ih =>
    rw [List.cons_append, read_plain hnewline hquote hescape]
    have hstop : pos + byteLength [c] = pos + c.utf8Size := rfl
    rw [hstop, ih h]
    rfl

/-- A line feed would end the literal, and no escape stands for anything with one. -/
theorem newline_not_mem {start pos : Nat} {cs : List Char} (h : (read start pos cs).faults = []) :
    ∃ text, cs = text ++ (read start pos cs).rest ∧ '\n' ∉ text := by
  fun_induction read start pos cs with
  | case1 => cases h
  | case2 => cases h
  | case3 pos more => exact ⟨['"'], rfl, by decide⟩
  | case4 => cases h
  | case5 pos e more stop d hd _ _ ih =>
    obtain ⟨text, hmore, htext⟩ := ih h
    have he : e ≠ '\n' := by
      rintro rfl
      cases hd
    exact ⟨'\\' :: e :: text, congrArg ('\\' :: e :: ·) hmore, by simp [htext, he.symm]⟩
  | case6 => cases h
  | case7 pos c more hnewline _ _ ih =>
    obtain ⟨text, hmore, htext⟩ := ih h
    exact ⟨c :: text, congrArg (c :: ·) hmore, by simp [htext, Ne.symm hnewline]⟩

end Literal

section Runs

/-- A blank goes on neither with a name nor with an integer. -/
theorem blank_ends {d : Char} (h : isBlank d = true) :
    continuesName d = false ∧ continuesInteger d = false := by
  simp only [isBlank, Bool.or_eq_true, beq_iff_eq] at h
  rcases h with ((rfl | rfl) | rfl) | rfl <;> decide

variable {c : Char} {p : Char → Bool} {read : List Char → Except LexicalFault TokenKind}

/-- A run ends at what cannot go on with it, and neither can blanks. -/
theorem run_steady {start : Nat} {cs : List Char} (hblank : ∀ d, isBlank d = true → p d = false)
    (hlexeme : ∀ start' ds, lexeme start' c ds = run start' c ds p read)
    (h : (run start c cs p read).faults = []) :
    '\n' ∉ cs.takeWhile p ∧
      Steady (run start c cs p read).kind c (cs.takeWhile p) (cs.dropWhile p) := by
  have hall : ∀ d ∈ cs.takeWhile p, p d = true := fun d hd => List.mem_takeWhile_imp hd
  constructor
  · intro hmem
    have hnewline := hall _ hmem
    rw [hblank '\n' rfl] at hnewline
    cases hnewline
  · intro start' rest' hreplaces
    have hstop : ∀ d ∈ rest'.head?, p d = false := by
      intro d hd
      rcases hreplaces d hd with hsame | rfl | ⟨-, hd⟩
      · have hnot := List.head?_dropWhile_not p cs
        rwa [hsame] at hnot
      · exact hblank '\n' rfl
      · exact hblank d hd
    obtain ⟨htake, hdrop⟩ := takeWhile_stops hall hstop
    rw [hlexeme, run, htake, hdrop]
    cases hread : read (c :: cs.takeWhile p) with
    | ok kind => simp only [run, hread]
    | error fault =>
      simp only [run, hread] at h
      cases h

end Runs

section Signs

/-- No operator has a blank as its second character. -/
theorem ofSpelling?_blank (c : Char) {d : Char} (h : isBlank d = true) :
    Operator.ofSpelling? (String.ofList [c, d]) = none := by
  rw [Option.eq_none_iff_forall_not_mem]
  intro sign hsign
  have hspelled : sign.spelling = String.ofList [c, d] := by simpa using List.find?_some hsign
  have hchars : sign.spelling.toList = [c, d] := by rw [hspelled, String.toList_ofList]
  cases sign <;> simp [Operator.spelling] at hchars <;>
    exact absurd h (by rw [← hchars.2]; decide)

/-- A sign of two characters is that sign whatever follows it; one of a single character is cut
short only by what does not make it another one. -/
theorem sign?_steady {c : Char} {cs : List Char} {kind : TokenKind} {length : Nat}
    {rest : List Char} (h : sign? c cs = some (kind, length, rest)) :
    ∃ more, cs = more ++ rest ∧ '\n' ∉ more ∧ length = byteLength (c :: more) ∧
      ∀ rest', Replaces (some kind) rest rest' →
        sign? c (more ++ rest') = some (kind, length, rest') := by
  have hafter : ∀ rest' : List Char,
      (∀ d ∈ rest'.head?, Operator.ofSpelling? (String.ofList [c, d]) = none) →
        sign? c [] = some (kind, length, []) → sign? c rest' = some (kind, length, rest') := by
    intro rest' hnone halone
    cases hoperator : Operator.ofSpelling? (String.singleton c) with
    | some sign =>
      simp only [sign?, hoperator] at halone ⊢
      cases rest' with
      | nil => simpa using halone
      | cons d more => simp_all
    | none =>
      simp only [sign?, hoperator] at halone ⊢
      cases rest' with
      | nil => simpa using halone
      | cons d more => simp_all
  cases cs with
  | nil =>
    obtain ⟨-, rfl, hlength, halone⟩ := @sign?_single c [] kind length rest h
    refine ⟨[], rfl, List.not_mem_nil, hlength, fun rest' hreplaces => hafter rest' ?_ halone⟩
    intro d hd
    rcases hreplaces d hd with hnone | rfl | ⟨-, hblank⟩
    · cases hnone
    · exact ofSpelling?_blank c rfl
    · exact ofSpelling?_blank c hblank
  | cons d cs =>
    cases hdouble : Operator.ofSpelling? (String.ofList [c, d]) with
    | some sign =>
      have hbytes := byteLength_of_operator hdouble
      rw [String.toList_ofList] at hbytes
      simp only [sign?, hdouble] at h
      cases h
      refine ⟨[d], rfl, ?_, hbytes.symm, fun rest' _ => ?_⟩
      · intro hmem
        obtain rfl := List.mem_singleton.1 hmem
        rw [ofSpelling?_blank c rfl] at hdouble
        cases hdouble
      · simp only [sign?, List.singleton_append, hdouble]
        rfl
    | none =>
      simp only [sign?, hdouble] at h
      obtain ⟨-, rfl, hlength, halone⟩ := sign?_single h
      refine ⟨[], rfl, List.not_mem_nil, hlength, fun rest' hreplaces => hafter rest' ?_ halone⟩
      intro e he
      rcases hreplaces e he with hsame | rfl | ⟨-, hblank⟩
      · obtain rfl := Option.some.inj hsame
        exact hdouble
      · exact ofSpelling?_blank c rfl
      · exact ofSpelling?_blank c hblank

end Signs

theorem literal_steady {start : Nat} {cs : List Char} (h : (lexeme start '"' cs).faults = []) :
    ∃ more, cs = more ++ (lexeme start '"' cs).rest ∧ '\n' ∉ more ∧
      Steady (lexeme start '"' cs).kind '"' more (lexeme start '"' cs).rest := by
  have hlexeme : ∀ start' ds,
      lexeme start' '"' ds = (Literal.read start' (start' + 1) ds).lexeme := fun start' ds => rfl
  rw [hlexeme] at h ⊢
  obtain ⟨text, hcs, hreads⟩ := Literal.read_reads start (start + 1) cs
  obtain ⟨hclosed, halone⟩ := hreads.alone h
  obtain ⟨text', hcs', hnewline⟩ := Literal.newline_not_mem h
  obtain rfl : text = text' := List.append_cancel_right (hcs.symm.trans hcs')
  refine ⟨text, hcs, hnewline, fun start' rest' _ => ?_⟩
  have hclosing : (Literal.read start' (start' + 1) text).closed = true := by rw [halone]
  have hread := Literal.read_append rest' hclosing
  rw [hlexeme, hread, halone]
  simp only [Literal.lexeme, hclosed, if_true, List.nil_append]
  exact congrArg (Lexeme.mk _ _ · _) (Nat.add_assoc start' 1 _)

/-- A lexeme without faults has no line feed after its first character, and it is the same lexeme
whatever stands in the place of what follows it. -/
theorem lexeme_steady {start : Nat} {c : Char} {cs : List Char}
    (h : (lexeme start c cs).faults = []) :
    ∃ more, cs = more ++ (lexeme start c cs).rest ∧ '\n' ∉ more ∧
      Steady (lexeme start c cs).kind c more (lexeme start c cs).rest := by
  by_cases hblank : isBlank c = true
  · rw [lexeme, if_pos hblank]
    exact ⟨[], rfl, List.not_mem_nil, steady_blank hblank cs⟩
  by_cases hcomment : c = '/' ∧ cs.head? = some '/'
  · rw [lexeme, if_neg hblank, if_pos hcomment]
    obtain ⟨rfl, hhead⟩ := hcomment
    obtain ⟨ds, rfl⟩ : ∃ ds, cs = '/' :: ds := List.head?_eq_some_iff.1 hhead
    have hbody : '\n' ∉ ds.takeWhile (· != '\n') := fun hmem =>
      absurd (List.mem_takeWhile_imp hmem) (by decide)
    refine ⟨'/' :: ds.takeWhile (· != '\n'), ?_, ?_, ?_⟩
    · exact congrArg ('/' :: ·) List.takeWhile_append_dropWhile.symm
    · simp [hbody]
    · exact steady_comment hbody (dropWhile_newline ('/' :: ds))
  by_cases hquote : c = '"'
  · subst hquote
    exact literal_steady h
  by_cases hdigit : isDigit c = true
  · have hslash : c ≠ '/' := by
      rintro rfl
      exact absurd hdigit (by decide)
    have hlexeme : ∀ start' ds,
        lexeme start' c ds = run start' c ds continuesInteger readInteger := by
      intro start' ds
      rw [lexeme, if_neg hblank, if_neg (fun h => hslash h.1), if_neg hquote, if_pos hdigit]
    rw [hlexeme] at h ⊢
    obtain ⟨hnewline, hsteady⟩ := run_steady (fun _ hd => (blank_ends hd).2) hlexeme h
    rw [run_rest]
    exact ⟨_, List.takeWhile_append_dropWhile.symm, hnewline, hsteady⟩
  by_cases hname : startsName c = true
  · have hslash : c ≠ '/' := by
      rintro rfl
      exact absurd hname (by decide)
    have hlexeme : ∀ start' ds, lexeme start' c ds = run start' c ds continuesName readName := by
      intro start' ds
      rw [lexeme, if_neg hblank, if_neg (fun h => hslash h.1), if_neg hquote, if_neg hdigit,
        if_pos hname]
    rw [hlexeme] at h ⊢
    obtain ⟨hnewline, hsteady⟩ := run_steady (fun _ hd => (blank_ends hd).1) hlexeme h
    rw [run_rest]
    exact ⟨_, List.takeWhile_append_dropWhile.symm, hnewline, hsteady⟩
  have hlexeme : ∀ start' ds kind length rest, ¬(c = '/' ∧ ds.head? = some '/') →
      sign? c ds = some (kind, length, rest) →
        lexeme start' c ds = ⟨some kind, [], start' + length, rest⟩ := by
    intro start' ds kind length rest hds hsign
    rw [lexeme, if_neg hblank, if_neg hds, if_neg hquote, if_neg hdigit, if_neg hname, hsign]
  cases hsign : sign? c cs with
  | none =>
    rw [lexeme, if_neg hblank, if_neg hcomment, if_neg hquote, if_neg hdigit, if_neg hname,
      hsign] at h
    cases h
  | some found =>
    obtain ⟨kind, length, rest⟩ := found
    obtain ⟨more, hcs, hnewline, hlength, hsteady⟩ := sign?_steady hsign
    rw [hlexeme start cs kind length rest hcomment hsign]
    refine ⟨more, hcs, hnewline, fun start' rest' hreplaces => ?_⟩
    have hplain : ¬(c = '/' ∧ (more ++ rest').head? = some '/') := by
      rintro ⟨hc, hhead⟩
      cases more with
      | nil =>
        rcases hreplaces '/' hhead with hsame | hnewline | ⟨-, hslash⟩
        · exact hcomment ⟨hc, hcs ▸ hsame⟩
        · cases hnewline
        · cases hslash
      | cons d more => exact hcomment ⟨hc, hcs ▸ hhead⟩
    rw [hlexeme start' _ _ _ _ hplain (hsteady rest' hreplaces), hlength]

/-- A lexeme as it stands in a text: the token that it is, if it is one, and its characters. -/
structure Part where
  kind : Option TokenKind
  text : List Char

def texts (parts : List Part) : List Char := parts.flatMap (·.text)

@[simp] theorem texts_nil : texts [] = [] := rfl

@[simp] theorem texts_cons (p : Part) (parts : List Part) :
    texts (p :: parts) = p.text ++ texts parts := List.flatMap_cons

@[simp] theorem texts_append (parts more : List Part) :
    texts (parts ++ more) = texts parts ++ texts more := List.flatMap_append

/-- Each part is a lexeme where it stands, before the parts that follow it. -/
inductive Lexed : List Part → Prop
  | nil : Lexed []
  | cons {kind : Option TokenKind} {c : Char} {more : List Char} {parts : List Part} :
      '\n' ∉ more → Steady kind c more (texts parts) → Lexed parts →
        Lexed (⟨kind, c :: more⟩ :: parts)

/-- The tokens among the parts of a text whose first byte is at `pos`. -/
def tokensFrom : Nat → List Part → List Token
  | _, [] => []
  | pos, p :: parts =>
    (p.kind.map (⟨·, ⟨pos, pos + byteLength p.text⟩⟩)).toList ++
      tokensFrom (pos + byteLength p.text) parts

theorem tokensFrom_append (pos : Nat) (parts more : List Part) :
    tokensFrom pos (parts ++ more) =
      tokensFrom pos parts ++ tokensFrom (pos + byteLength (texts parts)) more := by
  induction parts generalizing pos with
  | nil => rfl
  | cons p parts ih =>
    simp only [List.cons_append, tokensFrom, ih, texts_cons, byteLength_append, Nat.add_assoc,
      List.append_assoc]

/-- The token `distance` bytes further on. -/
def shifted (distance : Nat) (t : Token) : Token := ⟨t.node, t.span.shift distance⟩

theorem tokensFrom_shift (distance pos : Nat) (parts : List Part) :
    tokensFrom (pos + distance) parts = (tokensFrom pos parts).map (shifted distance) := by
  induction parts generalizing pos with
  | nil => rfl
  | cons p parts ih =>
    have hstop : pos + distance + byteLength p.text = pos + byteLength p.text + distance := by omega
    rw [tokensFrom, tokensFrom, hstop, ih, List.map_append]
    cases p.kind <;> rfl

theorem tokensFrom_within {pos : Nat} {parts : List Part} : ∀ t ∈ tokensFrom pos parts,
    pos ≤ t.span.start ∧ t.span.stop ≤ pos + byteLength (texts parts) := by
  induction parts generalizing pos with
  | nil => simp [tokensFrom]
  | cons p parts ih =>
    intro t ht
    rw [texts_cons, byteLength_append]
    rcases List.mem_append.1 ht with hfirst | hmore
    · obtain ⟨kind, -, rfl⟩ : ∃ kind, p.kind = some kind ∧
          (⟨kind, ⟨pos, pos + byteLength p.text⟩⟩ : Token) = t := by simpa using hfirst
      dsimp only
      omega
    · have hle := ih t hmore
      omega

namespace Lexed

variable {parts front later later' : List Part} {source : List Char} {tokens : List Token}

theorem of_lexemes {start : Nat} {cs : List Char}
    (h : ∀ x ∈ lexemes start cs, x.2.faults = []) : ∃ parts, texts parts = cs ∧ Lexed parts := by
  fun_induction lexemes start cs with
  | case1 => exact ⟨[], rfl, .nil⟩
  | case2 start c cs x ih =>
    obtain ⟨hx, hmore⟩ := List.forall_mem_cons.1 h
    obtain ⟨more, hcs, hnewline, hsteady⟩ := lexeme_steady hx
    obtain ⟨parts, htexts, hparts⟩ := ih hmore
    refine ⟨⟨x.kind, c :: more⟩ :: parts, ?_, .cons hnewline ?_ hparts⟩
    · rw [texts_cons, htexts, List.cons_append]
      exact congrArg (c :: ·) hcs.symm
    · rw [htexts]
      exact hsteady

/-- The lexemes of the text are its parts. -/
theorem lexemes_eq (h : Lexed parts) (pos : Nat) :
    (lexemes pos (texts parts)).flatMap (·.2.faults) = [] ∧
      (lexemes pos (texts parts)).filterMap (fun x => ofLexeme? x.1 x.2) =
        tokensFrom pos parts := by
  induction h generalizing pos with
  | nil => simp [lexemes, tokensFrom]
  | @cons kind c more parts hnewline hsteady hparts ih =>
    have hfirst := hsteady pos (texts parts) (.refl kind _)
    obtain ⟨hfaults, htokens⟩ := ih (pos + byteLength (c :: more))
    rw [texts_cons, List.cons_append, lexemes, hfirst]
    dsimp only
    constructor
    · rw [List.flatMap_cons, hfaults]
      rfl
    · rw [tokensFrom, ← htokens, List.filterMap_cons]
      cases kind <;> rfl

/-- A text is accepted exactly if it can be cut into lexemes; its tokens are those among them. -/
theorem scan_eq_ok_iff : scan source = .ok tokens ↔ ∃ parts, texts parts = source ∧ Lexed parts ∧
    tokens = tokensFrom 0 parts ++ [⟨.endOfFile, .empty (byteLength source)⟩] := by
  have hscan : ∀ parts, texts parts = source → Lexed parts → scan source =
      .ok (tokensFrom 0 parts ++ [⟨.endOfFile, .empty (byteLength source)⟩]) := by
    rintro parts rfl hparts
    obtain ⟨hfaults, htokens⟩ := hparts.lexemes_eq 0
    rw [scan, hfaults, htokens]
  constructor
  · intro h
    have hnone : ∀ x ∈ lexemes 0 source, x.2.faults = [] := by
      unfold scan at h
      dsimp only at h
      split at h
      · next hnone => exact fun x hx => List.flatMap_eq_nil_iff.1 hnone x hx
      · cases h
    obtain ⟨parts, hsource, hparts⟩ := of_lexemes hnone
    refine ⟨parts, hsource, hparts, ?_⟩
    rw [hscan parts hsource hparts] at h
    exact (Except.ok.inj h).symm
  · rintro ⟨parts, hsource, hparts, rfl⟩
    exact hscan parts hsource hparts

theorem later_part (h : Lexed (front ++ later)) : Lexed later := by
  induction front with
  | nil => exact h
  | cons p front ih =>
    cases h with
    | cons _ _ hparts => exact ih hparts

/-- The parts in front stay as they are beside other parts that may stand there. -/
theorem beside (h : Lexed (front ++ later)) (hlater : Lexed later')
    (hnext : ∀ p ∈ front.getLast?, Replaces p.kind (texts later) (texts later')) :
    Lexed (front ++ later') := by
  induction front with
  | nil => exact hlater
  | cons p front ih =>
    cases h with
    | @cons kind c more _ hnewline hsteady hparts =>
      cases front with
      | nil => exact .cons hnewline (hsteady.before (hnext _ rfl)) hlater
      | cons q front =>
        -- The next part is in front too, so what follows this one begins in the same way.
        have hhead :
            (texts (q :: front ++ later')).head? = (texts (q :: front ++ later)).head? := by
          cases hparts with
          | cons => rfl
        exact .cons hnewline (hsteady.before (.of_head hhead)) (ih hparts hnext)

/-- Parts in front are lexemes also where nothing follows them. -/
theorem front_part (h : Lexed (front ++ later)) : Lexed front := by
  have halone : Lexed (front ++ []) := h.beside .nil fun p _ => replaces_nil p.kind _
  rwa [List.append_nil] at halone

end Lexed

end TestBench.Token
