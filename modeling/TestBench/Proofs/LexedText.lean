import Mathlib.Data.List.TakeWhile
import TestBench.Proofs.TextPlaces
import TestBench.Token.Lexer

/-!
What a text is made of. Every lexeme stands for a piece of the text that begins
where the lexeme does, and its faults are within this piece. A piece without
faults is a blank, a comment up to the end of its line, or the text of a token,
which is read as this token wherever it stands alone. So the tokens of a text
tile it: their spans are in order and apart, and nothing but blanks and comments
is between them.
-/
namespace TestBench.Token

/-- The fault is that of the beginning of a text whose first byte is at `pos`. It begins at `start`,
where the text may have begun before. -/
def FaultIn (start pos : Nat) (text : List Char) (f : Spanned LexicalFault) : Prop :=
  f.span.start = start ∧ ∃ read more, text = read ++ more ∧ f.span.stop = pos + byteLength read

theorem FaultIn.after {start pos : Nat} {front text : List Char} {f : Spanned LexicalFault}
    (h : FaultIn start (pos + byteLength front) text f) : FaultIn start pos (front ++ text) f := by
  obtain ⟨hstart, read, more, rfl, hstop⟩ := h
  refine ⟨hstart, front ++ read, more, (List.append_assoc ..).symm, ?_⟩
  rw [hstop, byteLength_append, Nat.add_assoc]

/-- The fault is that of all of the text. -/
theorem FaultIn.whole {start pos stop : Nat} {text : List Char} {fault : LexicalFault}
    (h : stop = pos + byteLength text) : FaultIn start pos text ⟨fault, ⟨start, stop⟩⟩ :=
  ⟨rfl, text, [], (List.append_nil _).symm, h⟩

namespace Literal

/-- The literal that begins at `start` is read from `pos` on and ends after `text`. Without faults
it is closed, and the same literal is read where nothing comes after it. -/
structure Reads (s : Literal) (start pos : Nat) (text : List Char) : Prop where
  stop_eq : s.stop = pos + byteLength text
  faults : ∀ f ∈ s.faults, FaultIn start pos text f
  alone : s.faults = [] → s.closed = true ∧ ∀ start' pos',
    read start' pos' text = ⟨s.value, true, [], pos' + byteLength text, []⟩

section Parts

variable {start pos stop : Nat} {text front : List Char} {s : Literal}

theorem reads_unterminated (rest : List Char) (h : stop = pos + byteLength text) :
    (unterminated start stop rest).Reads start pos text := by
  refine ⟨h, ?_, fun hnone => by cases hnone⟩
  intro f hf
  obtain rfl := List.mem_singleton.1 hf
  exact .whole h

theorem Reads.push {d : Char} (h : s.Reads start (pos + byteLength front) text)
    (hread : ∀ start' pos', read start' pos' (front ++ text) =
      (read start' (pos' + byteLength front) text).push d) :
    (s.push d).Reads start pos (front ++ text) := by
  refine ⟨?_, fun f hf => (h.faults f hf).after, ?_⟩
  · rw [byteLength_append, ← Nat.add_assoc]
    exact h.stop_eq
  · intro hnone
    obtain ⟨hclosed, halone⟩ := h.alone hnone
    refine ⟨hclosed, fun start' pos' => ?_⟩
    rw [hread, halone, byteLength_append, Nat.add_assoc]
    rfl

theorem Reads.fault {fault : LexicalFault} (h : s.Reads start (pos + byteLength front) text) :
    (s.fault ⟨fault, ⟨start, pos + byteLength front⟩⟩).Reads start pos (front ++ text) := by
  refine ⟨?_, ?_, fun hnone => by cases hnone⟩
  · rw [byteLength_append, ← Nat.add_assoc]
    exact h.stop_eq
  · intro f hf
    rcases List.mem_cons.1 hf with rfl | hf
    · exact ⟨rfl, front, text, rfl, rfl⟩
    · exact (h.faults f hf).after

end Parts

theorem read_escape (start pos : Nat) (e : Char) (cs : List Char) :
    read start pos ('\\' :: e :: cs) = match unescape e with
      | some d => (read start (pos + byteLength ['\\', e]) cs).push d
      | none => (read start (pos + byteLength ['\\', e]) cs).fault
          ⟨.unknownEscape e, ⟨start, pos + byteLength ['\\', e]⟩⟩ := by
  have hstop : pos + byteLength ['\\', e] = pos + 1 + e.utf8Size := (Nat.add_assoc pos 1 _).symm
  rw [read.eq_def, hstop]
  dsimp only
  rw [if_neg (by decide), if_neg (by decide)]
  exact if_pos rfl

theorem read_plain {c : Char} (hnewline : c ≠ '\n') (hquote : c ≠ '"') (hescape : c ≠ '\\')
    (start pos : Nat) (cs : List Char) :
    read start pos (c :: cs) = (read start (pos + byteLength [c]) cs).push c := by
  rw [read.eq_def]
  dsimp only
  rw [if_neg hnewline, if_neg hquote, if_neg hescape]
  rfl

theorem read_reads (start pos : Nat) (cs : List Char) : ∃ text,
    cs = text ++ (read start pos cs).rest ∧ (read start pos cs).Reads start pos text := by
  fun_induction read start pos cs with
  | case1 pos => exact ⟨[], rfl, reads_unterminated [] rfl⟩
  | case2 pos more => exact ⟨['\n'], rfl, reads_unterminated more rfl⟩
  | case3 pos more =>
    refine ⟨['"'], rfl, rfl, fun f hf => (List.not_mem_nil hf).elim, fun _ => ⟨rfl, ?_⟩⟩
    intro start' pos'
    rw [read, if_neg (by decide), if_pos rfl]
    rfl
  | case4 pos => exact ⟨['\\'], rfl, reads_unterminated [] rfl⟩
  | case5 pos e more stop d hd _ _ ih =>
    obtain ⟨text, hmore, h⟩ := ih
    refine ⟨['\\', e] ++ text, congrArg ('\\' :: e :: ·) hmore, ?_⟩
    have hstop : stop = pos + byteLength ['\\', e] := Nat.add_assoc pos 1 _
    rw [hstop] at h ⊢
    refine h.push fun start' pos' => ?_
    rw [List.cons_append, List.singleton_append, read_escape, hd]
  | case6 pos e more stop _ _ _ ih =>
    obtain ⟨text, hmore, h⟩ := ih
    refine ⟨['\\', e] ++ text, congrArg ('\\' :: e :: ·) hmore, ?_⟩
    have hstop : stop = pos + byteLength ['\\', e] := Nat.add_assoc pos 1 _
    rw [hstop] at h ⊢
    exact h.fault
  | case7 pos c more hnewline hquote hescape ih =>
    obtain ⟨text, hmore, h⟩ := ih
    refine ⟨[c] ++ text, congrArg (c :: ·) hmore, ?_⟩
    exact h.push fun start' pos' => read_plain hnewline hquote hescape start' pos' text

end Literal

/-- The text is that of a token of this kind, which is what is read where nothing comes after it. -/
structure Spells (text : List Char) (kind : TokenKind) : Prop where
  kind_ne : kind ≠ .endOfFile
  alone : ∃ c more, text = c :: more ∧
    ∀ start, lexeme start c more = ⟨some kind, [], start + byteLength text, []⟩

/-- What a lexeme without faults stands for, given what comes after it. -/
inductive Piece (rest : List Char) : Option TokenKind → List Char → Prop
  | blank {c : Char} : isBlank c = true → Piece rest none [c]
  | comment {body : List Char} : '\n' ∉ body → rest = [] ∨ rest.head? = some '\n' →
      Piece rest none ('/' :: '/' :: body)
  | token {kind : TokenKind} {text : List Char} : Spells text kind → Piece rest (some kind) text

/-- The lexeme at `start` stands for the beginning of the characters. Its faults are in it, and
without faults it is a piece of its kind. -/
def Lexeme.StandsFor (x : Lexeme) (start : Nat) (cs : List Char) : Prop :=
  ∃ text, text ≠ [] ∧ cs = text ++ x.rest ∧ x.stop = start + byteLength text ∧
    (∀ f ∈ x.faults, FaultIn start start text f) ∧ (x.faults = [] → Piece x.rest x.kind text)

section Runs

variable {c : Char} {p : Char → Bool} {read : List Char → Except LexicalFault TokenKind}

/-- What a run of characters is read as, it is read as where nothing comes after it. -/
theorem run_standsFor (start : Nat) {cs : List Char} (hend : ∀ ds, read ds ≠ .ok .endOfFile)
    (hlexeme : ∀ start', lexeme start' c (cs.takeWhile p) = run start' c (cs.takeWhile p) p read) :
    (run start c cs p read).StandsFor start (c :: cs) := by
  have hsplit : c :: cs = (c :: cs.takeWhile p) ++ cs.dropWhile p :=
    congrArg (c :: ·) List.takeWhile_append_dropWhile.symm
  have hall : ∀ d ∈ cs.takeWhile p, p d = true := fun d hd => List.mem_takeWhile_imp hd
  refine ⟨c :: cs.takeWhile p, List.cons_ne_nil _ _, by rwa [run_rest], ?_⟩
  cases hread : read (c :: cs.takeWhile p) with
  | error fault =>
    simp only [run, hread]
    refine ⟨trivial, fun f hf => ?_, fun hnone => by cases hnone⟩
    obtain rfl := List.mem_singleton.1 hf
    exact .whole rfl
  | ok kind =>
    simp only [run, hread]
    refine ⟨trivial, fun f hf => (List.not_mem_nil hf).elim, fun _ =>
      .token ⟨?_, c, _, rfl, ?_⟩⟩
    · rintro rfl
      exact hend _ hread
    · intro start'
      simp only [hlexeme, run, List.takeWhile_eq_self_iff.2 hall,
        List.dropWhile_eq_nil_iff.2 hall, hread]

theorem readName_ne_end (cs : List Char) : readName cs ≠ .ok .endOfFile := by
  intro h
  unfold readName at h
  dsimp only at h
  split at h <;> cases h

theorem integer_ne_end (digits : List Char) (value : Option Word) :
    integer digits value ≠ .ok .endOfFile := by
  intro h
  cases value <;> cases h

theorem readInteger_ne_end (cs : List Char) : readInteger cs ≠ .ok .endOfFile := by
  -- The value must not be opened: deciding whether it is in range counts up to the limit.
  delta readInteger
  exact integer_ne_end _ _

end Runs

section Signs

theorem byteLength_of_operator {s : String} {sign : Operator}
    (h : Operator.ofSpelling? s = some sign) : byteLength s.toList = s.toList.length := by
  obtain rfl : sign.spelling = s := by simpa using List.find?_some h
  cases sign <;> rfl

theorem byteLength_of_punctuation {s : String} {sign : Punctuation}
    (h : Punctuation.ofSpelling? s = some sign) : byteLength s.toList = s.toList.length := by
  obtain rfl : sign.spelling = s := by simpa using List.find?_some h
  cases sign <;> rfl

/-- A sign of one character, with what follows it. -/
theorem sign?_single {c : Char} {cs : List Char} {kind : TokenKind} {length : Nat}
    {rest : List Char}
    (h : ((Operator.ofSpelling? (String.singleton c)).map (TokenKind.operator ·, 1, cs) <|>
      (Punctuation.ofSpelling? (String.singleton c)).map (TokenKind.punctuation ·, 1, cs)) =
        some (kind, length, rest)) :
    kind ≠ .endOfFile ∧ rest = cs ∧ length = byteLength [c] ∧
      sign? c [] = some (kind, length, []) := by
  have htext : (String.singleton c).toList = [c] := String.toList_singleton c
  cases hoperator : Operator.ofSpelling? (String.singleton c) with
  | some sign =>
    have hbytes := byteLength_of_operator hoperator
    rw [htext] at hbytes
    rw [hoperator] at h
    cases h
    refine ⟨nofun, rfl, hbytes.symm, ?_⟩
    dsimp only [sign?]
    rw [hoperator]
    rfl
  | none =>
    cases hmark : Punctuation.ofSpelling? (String.singleton c) with
    | some sign =>
      have hbytes := byteLength_of_punctuation hmark
      rw [htext] at hbytes
      rw [hoperator, hmark] at h
      cases h
      refine ⟨nofun, rfl, hbytes.symm, ?_⟩
      dsimp only [sign?]
      rw [hoperator, hmark]
      rfl
    | none =>
      rw [hoperator, hmark] at h
      cases h

/-- A sign takes one byte for each of its characters, and it is found also where nothing comes
after it. -/
theorem sign?_alone {c : Char} {cs : List Char} {kind : TokenKind} {length : Nat}
    {rest : List Char} (h : sign? c cs = some (kind, length, rest)) :
    kind ≠ .endOfFile ∧ ∃ more, cs = more ++ rest ∧ length = byteLength (c :: more) ∧
      sign? c more = some (kind, length, []) := by
  cases cs with
  | nil =>
    obtain ⟨hkind, rfl, hlength, halone⟩ := @sign?_single c [] kind length rest h
    exact ⟨hkind, [], rfl, hlength, halone⟩
  | cons d cs =>
    dsimp only [sign?] at h
    cases hdouble : Operator.ofSpelling? (String.ofList [c, d]) with
    | some sign =>
      have hbytes := byteLength_of_operator hdouble
      rw [String.toList_ofList] at hbytes
      rw [hdouble] at h
      cases h
      refine ⟨nofun, [d], rfl, hbytes.symm, ?_⟩
      dsimp only [sign?]
      rw [hdouble]
      rfl
    | none =>
      rw [hdouble] at h
      obtain ⟨hkind, rfl, hlength, halone⟩ := sign?_single h
      exact ⟨hkind, [], rfl, hlength, halone⟩

end Signs

theorem utf8Size_of_isBlank {c : Char} (h : isBlank c = true) : c.utf8Size = 1 := by
  simp only [isBlank, Bool.or_eq_true, beq_iff_eq] at h
  rcases h with ((rfl | rfl) | rfl) | rfl <;> rfl

section Pieces

variable {c : Char} {cs : List Char}

/-- A comment goes up to a line feed or to the end of the text. -/
theorem dropWhile_newline (cs : List Char) :
    cs.dropWhile (· != '\n') = [] ∨ (cs.dropWhile (· != '\n')).head? = some '\n' := by
  have hstop := List.head?_dropWhile_not (· != '\n') cs
  cases hrest : cs.dropWhile (· != '\n') with
  | nil => exact Or.inl rfl
  | cons c rest =>
    rw [hrest] at hstop
    simp only [List.head?_cons, bne_eq_false_iff_eq] at hstop
    exact Or.inr (congrArg some hstop)

theorem comment_standsFor (start : Nat) (hhead : cs.head? = some '/') :
    Lexeme.StandsFor ⟨none, [], start + 1 + byteLength (cs.takeWhile (· != '\n')),
      cs.dropWhile (· != '\n')⟩ start ('/' :: cs) := by
  obtain ⟨ds, rfl⟩ : ∃ ds, cs = '/' :: ds := List.head?_eq_some_iff.1 hhead
  have hbody : '\n' ∉ ds.takeWhile (· != '\n') := fun hmem =>
    absurd (List.mem_takeWhile_imp hmem) (by decide)
  refine ⟨'/' :: ('/' :: ds).takeWhile (· != '\n'), List.cons_ne_nil _ _,
    congrArg ('/' :: ·) List.takeWhile_append_dropWhile.symm, Nat.add_assoc start 1 _, ?_,
    fun _ => .comment hbody (dropWhile_newline ('/' :: ds))⟩
  exact fun f hf => (List.not_mem_nil hf).elim

theorem literal_standsFor (start : Nat)
    (hlexeme : ∀ start' ds rest, cs = ds ++ rest →
      lexeme start' '"' ds = (Literal.read start' (start' + 1) ds).lexeme) :
    (Literal.read start (start + 1) cs).lexeme.StandsFor start ('"' :: cs) := by
  obtain ⟨text, hcs, hreads⟩ := Literal.read_reads start (start + 1) cs
  refine ⟨'"' :: text, List.cons_ne_nil _ _, congrArg ('"' :: ·) hcs, ?_, ?_, fun hnone => ?_⟩
  · exact hreads.stop_eq.trans (Nat.add_assoc start 1 _)
  · exact fun f hf => @FaultIn.after start start ['"'] text f (hreads.faults f hf)
  · obtain ⟨hclosed, halone⟩ := hreads.alone hnone
    simp only [Literal.lexeme, hclosed, if_true]
    refine .token ⟨(fun h => by cases h), '"', text, rfl, fun start' => ?_⟩
    rw [hlexeme start' text _ hcs, halone]
    exact congrArg (Lexeme.mk _ _ · _) (Nat.add_assoc start' 1 _)

/-- A lexeme stands for the text up to where the next one starts; if it has no faults this is a
blank, a comment or the text of a token. -/
theorem lexeme_standsFor (start : Nat) (c : Char) (cs : List Char) :
    (lexeme start c cs).StandsFor start (c :: cs) := by
  unfold lexeme
  split
  · next hblank =>
    have hstop : start + 1 = start + byteLength [c] := by
      rw [byteLength_cons, utf8Size_of_isBlank hblank, byteLength_nil]
    exact ⟨[c], List.cons_ne_nil _ _, rfl, hstop, fun f hf => (List.not_mem_nil hf).elim,
      fun _ => .blank hblank⟩
  split
  · next hcomment =>
    obtain ⟨rfl, hhead⟩ := hcomment
    exact comment_standsFor start hhead
  next hblank hcomment =>
  -- What is read alone begins with the same characters, so it is no comment either.
  have hplain : ∀ more rest, cs = more ++ rest → ¬(c = '/' ∧ more.head? = some '/') := by
    rintro more rest rfl ⟨hc, hmore⟩
    exact hcomment ⟨hc, by rw [List.head?_append, hmore, Option.some_or]⟩
  have hrun := fun p => hplain (cs.takeWhile p) _ List.takeWhile_append_dropWhile.symm
  split
  · next hquote =>
    subst hquote
    refine literal_standsFor start fun start' ds rest hds => ?_
    rw [lexeme, if_neg hblank, if_neg (hplain ds rest hds), if_pos rfl]
  next hquote =>
  split
  · next hdigit =>
    refine run_standsFor start readInteger_ne_end fun start' => ?_
    rw [lexeme, if_neg hblank, if_neg (hrun _), if_neg hquote, if_pos hdigit]
  next hdigit =>
  split
  · next hname =>
    refine run_standsFor start readName_ne_end fun start' => ?_
    rw [lexeme, if_neg hblank, if_neg (hrun _), if_neg hquote, if_neg hdigit, if_pos hname]
  next hname =>
  split
  · next kind length rest hsign =>
    obtain ⟨hkind, more, rfl, rfl, halone⟩ := sign?_alone hsign
    refine ⟨c :: more, List.cons_ne_nil _ _, rfl, rfl,
      fun f hf => (List.not_mem_nil hf).elim, fun _ => ?_⟩
    refine .token ⟨hkind, c, more, rfl, fun start' => ?_⟩
    rw [lexeme, if_neg hblank, if_neg (hplain more rest rfl), if_neg hquote, if_neg hdigit,
      if_neg hname, halone]
  · refine ⟨[c], List.cons_ne_nil _ _, rfl, rfl, fun f hf => ?_, fun hnone => by cases hnone⟩
    obtain rfl := List.mem_singleton.1 hf
    exact .whole rfl

end Pieces

/-- Blanks and comments. A comment goes up to a line feed or to the end of the text. -/
inductive Separates (rest : List Char) : List Char → Prop
  | nil : Separates rest []
  | blank {c : Char} {gap : List Char} : isBlank c = true → Separates rest gap →
      Separates rest (c :: gap)
  | comment {body gap : List Char} : '\n' ∉ body →
      gap ++ rest = [] ∨ (gap ++ rest).head? = some '\n' → Separates rest gap →
        Separates rest ('/' :: '/' :: body ++ gap)

/-- The tokens stand for what the text has after `before`, with separators around them. -/
inductive Tiles (source : List Char) : List Char → List Token → Prop
  | gap {before gap : List Char} : source = before ++ gap → Separates [] gap →
      Tiles source before []
  | token {before gap text rest : List Char} {kind : TokenKind} {more : List Token} :
      source = before ++ gap ++ text ++ rest → Separates (text ++ rest) gap → Spells text kind →
        Tiles source (before ++ gap ++ text) more → Tiles source before
          (⟨kind, ⟨byteLength (before ++ gap), byteLength (before ++ gap ++ text)⟩⟩ :: more)

/-- The spans before the first token, between two tokens and after the last one. -/
def gaps (start stop : Nat) : List Token → List Span
  | [] => [⟨start, stop⟩]
  | t :: more => ⟨start, t.span.start⟩ :: gaps t.span.stop stop more

namespace Tiles

variable {source before front cs : List Char} {tokens : List Token}

/-- A separator in front of the first token joins those that are there. -/
theorem separated (h : Tiles source (before ++ front) tokens)
    (hfront : ∀ gap rest, source = before ++ front ++ gap ++ rest → Separates rest gap →
      Separates rest (front ++ gap)) : Tiles source before tokens := by
  cases h with
  | gap hsource hgap =>
    refine .gap ?_ (hfront _ [] (by rwa [List.append_nil]) hgap)
    rw [hsource, List.append_assoc]
  | token hsource hgap hspells hmore =>
    rw [List.append_assoc before front] at hsource hmore ⊢
    refine .token hsource (hfront _ _ ?_ hgap) hspells hmore
    rw [hsource]
    simp only [List.append_assoc]

/-- Lexemes without faults tile the text. -/
theorem of_lexemes {start : Nat} (hsource : source = before ++ cs)
    (hstart : start = byteLength before) (hnone : ∀ x ∈ lexemes start cs, x.2.faults = []) :
    Tiles source before ((lexemes start cs).filterMap fun x => ofLexeme? x.1 x.2) := by
  fun_induction lexemes start cs generalizing before with
  | case1 => exact .gap hsource .nil
  | case2 start c cs x =>
    rename_i ih
    obtain ⟨hx, hmore⟩ := List.forall_mem_cons.1 hnone
    obtain ⟨text, -, hcs, hstop, -, hpiece⟩ := lexeme_standsFor start c cs
    change c :: cs = text ++ x.rest at hcs
    have hrest : source = before ++ text ++ x.rest := by rw [hsource, hcs, List.append_assoc]
    have hstop : x.stop = byteLength (before ++ text) := by
      rw [byteLength_append, ← hstart]
      exact hstop
    have htiles := ih hrest hstop hmore
    have hpiece : Piece x.rest x.kind text := hpiece hx
    rw [List.filterMap_cons]
    unfold ofLexeme?
    cases hkind : x.kind with
    | none =>
      rw [hkind] at hpiece
      refine htiles.separated fun gap rest hsplit hgap => ?_
      have hxrest : x.rest = gap ++ rest := by
        rw [hrest, List.append_assoc _ gap] at hsplit
        exact List.append_cancel_left hsplit
      cases hpiece with
      | blank hblank => exact .blank hblank hgap
      | comment hbody hends => exact .comment hbody (hxrest ▸ hends) hgap
    | some kind =>
      rw [hkind] at hpiece
      cases hpiece with
      | token hspells =>
        have hbefore : before ++ [] = before := List.append_nil before
        have htoken : Tiles source before (⟨kind, ⟨byteLength (before ++ []),
            byteLength (before ++ [] ++ text)⟩⟩ :: (lexemes x.stop x.rest).filterMap
              fun y => ofLexeme? y.1 y.2) :=
          .token (hbefore.symm ▸ hrest) .nil hspells (hbefore.symm ▸ htiles)
        rw [hbefore, ← hstop, ← hstart] at htoken
        exact htoken

/-- Each token has its text under its span. -/
theorem token_holds (h : Tiles source before tokens) :
    ∀ t ∈ tokens, byteLength before ≤ t.span.start ∧
      ∃ front text after, t.span.Holds source front text after ∧ Spells text t.node := by
  induction h with
  | gap => exact fun t ht => (List.not_mem_nil ht).elim
  | @token before gap text rest kind more hsource hgap hspells hmore ih =>
    intro t ht
    rcases List.mem_cons.1 ht with rfl | ht
    · refine ⟨?_, before ++ gap, text, rest, ⟨hsource, rfl, byteLength_append _ _⟩, hspells⟩
      rw [byteLength_append]
      exact Nat.le_add_right _ _
    · obtain ⟨hle, hholds⟩ := ih t ht
      rw [byteLength_append, byteLength_append] at hle
      exact ⟨by omega, hholds⟩

theorem pairwise (h : Tiles source before tokens) :
    tokens.Pairwise fun s t => s.span.stop ≤ t.span.start := by
  induction h with
  | gap => exact .nil
  | token _ _ _ hmore ih => exact .cons (fun t ht => (hmore.token_holds t ht).1) ih

/-- What is between the tokens separates them. -/
theorem gap_holds (h : Tiles source before tokens) :
    ∀ g ∈ gaps (byteLength before) (byteLength source) tokens,
      ∃ front gap after, g.Holds source front gap after ∧ Separates after gap := by
  induction h with
  | @gap before gap hsource hgap =>
    intro g hg
    obtain rfl := List.mem_singleton.1 hg
    refine ⟨before, gap, [], ⟨by rw [hsource, List.append_nil], rfl, ?_⟩, hgap⟩
    rw [hsource, byteLength_append]
  | @token before gap text rest kind more hsource hgap hspells hmore ih =>
    intro g hg
    rcases List.mem_cons.1 hg with rfl | hg
    · refine ⟨before, gap, text ++ rest, ⟨?_, rfl, byteLength_append _ _⟩, hgap⟩
      rw [hsource, List.append_assoc _ text]
    · exact ih g hg

end Tiles

theorem Spells.scan_eq {text : List Char} {kind : TokenKind} (h : Spells text kind) :
    scan text = .ok [⟨kind, ⟨0, byteLength text⟩⟩, ⟨.endOfFile, .empty (byteLength text)⟩] := by
  obtain ⟨c, more, rfl, halone⟩ := h.alone
  have hlexemes : lexemes 0 (c :: more) =
      [(0, ⟨some kind, [], byteLength (c :: more), []⟩)] := by
    rw [lexemes, halone, lexemes, Nat.zero_add]
  simp only [scan, hlexemes]
  rfl

theorem Spells.ne_nil {text : List Char} {kind : TokenKind} (h : Spells text kind) :
    text ≠ [] := by
  obtain ⟨c, more, rfl, -⟩ := h.alone
  exact List.cons_ne_nil _ _

theorem tiles_of_scan {source : List Char} {tokens : List Token} (h : scan source = .ok tokens) :
    ∃ read, tokens = read ++ [⟨.endOfFile, .empty (byteLength source)⟩] ∧ Tiles source [] read := by
  unfold scan at h
  dsimp only at h
  split at h
  · next hnone =>
    refine ⟨_, (Except.ok.inj h).symm, .of_lexemes rfl rfl fun x hx => ?_⟩
    exact List.flatMap_eq_nil_iff.1 hnone x hx
  · cases h

/-- The tokens of a text are in order, apart and between characters, with only blanks and comments
around them, and what stands under a token is read alone as this token. -/
theorem scan_tiles {source : List Char} {tokens : List Token} (h : scan source = .ok tokens) :
    ∃ read, tokens = read ++ [⟨.endOfFile, .empty (byteLength source)⟩] ∧
      (∀ t ∈ read, t.node ≠ .endOfFile ∧ t.span.start < t.span.stop ∧
        ∃ before text after, t.span.Holds source before text after ∧ scan text =
          .ok [⟨t.node, ⟨0, byteLength text⟩⟩, ⟨.endOfFile, .empty (byteLength text)⟩]) ∧
      (read.Pairwise fun s t => s.span.stop ≤ t.span.start) ∧
      ∀ g ∈ gaps 0 (byteLength source) read,
        ∃ before gap after, g.Holds source before gap after ∧ Separates after gap := by
  obtain ⟨read, htokens, htiles⟩ := tiles_of_scan h
  refine ⟨read, htokens, fun t ht => ?_, htiles.pairwise, htiles.gap_holds⟩
  obtain ⟨-, before, text, after, hholds, hspells⟩ := htiles.token_holds t ht
  refine ⟨hspells.kind_ne, ?_, before, text, after, hholds, hspells.scan_eq⟩
  have hpositive := byteLength_pos hspells.ne_nil
  rw [hholds.start_eq, hholds.stop_eq]
  omega

/-- A text with characters of two bytes in a literal and in a comment. -/
def umlautText : List Char := "let s=\"é\"; // ü\n s".toList

def umlautTokens : List Token :=
  [⟨.keyword .let, ⟨0, 3⟩⟩, ⟨.identifier "s", ⟨4, 5⟩⟩, ⟨.operator .assign, ⟨5, 6⟩⟩,
    ⟨.text "é", ⟨6, 10⟩⟩, ⟨.punctuation .semicolon, ⟨10, 11⟩⟩, ⟨.identifier "s", ⟨19, 20⟩⟩]

theorem scan_tiles_umlauts :
    scan umlautText = .ok (umlautTokens ++ [⟨.endOfFile, .empty 20⟩]) ∧
      (∀ t ∈ umlautTokens, t.node ≠ .endOfFile ∧ t.span.start < t.span.stop ∧
        ∃ before text after, t.span.Holds umlautText before text after ∧ scan text =
          .ok [⟨t.node, ⟨0, byteLength text⟩⟩, ⟨.endOfFile, .empty (byteLength text)⟩]) ∧
      (umlautTokens.Pairwise fun s t => s.span.stop ≤ t.span.start) ∧
      ∀ g ∈ [⟨0, 0⟩, ⟨3, 4⟩, ⟨5, 5⟩, ⟨6, 6⟩, ⟨10, 10⟩, ⟨11, 19⟩, ⟨20, 20⟩],
        ∃ before gap after, Span.Holds g umlautText before gap after ∧ Separates after gap := by
  have hscan : scan umlautText = .ok (umlautTokens ++ [⟨.endOfFile, .empty 20⟩]) := by
    decide +kernel
  obtain ⟨read, htokens, hread, hpairwise, hgaps⟩ := scan_tiles hscan
  obtain rfl : umlautTokens = read := List.append_cancel_right htokens
  exact ⟨hscan, hread, hpairwise, hgaps⟩

end TestBench.Token
