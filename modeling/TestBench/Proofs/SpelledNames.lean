import Mathlib.Data.List.TakeWhile
import TestBench.Proofs.NestingBound
import TestBench.Unit.Methods
import TestBench.Verdict.Runner

/-!
Names of methods. An identifier is a word of letters, digits and underscores, so
the full name of a type is made of words and of dots between them. What is
written of a method therefore has nothing blank in it, and its last dot
separates the type from the method.
-/
namespace TestBench

/-- What a token that is an identifier is made of. -/
def Token.IsWord (name : String) : Prop :=
  name.toList ≠ [] ∧ ∀ c ∈ name.toList, Token.continuesName c = true

namespace Token

/-- An identifier among the tokens is a word. -/
def HasWord (t : Token) : Prop := ∀ name, t.node = .identifier name → IsWord name

theorem continuesName_of_startsName {c : Char} (h : startsName c = true) :
    continuesName c = true := by
  simp only [startsName, continuesName, Bool.or_eq_true] at h ⊢
  tauto

theorem run_identifier {start : Nat} {c : Char} {cs : List Char} {p : Char → Bool}
    {read : List Char → Except LexicalFault TokenKind} {name : String}
    (h : (run start c cs p read).kind = some (.identifier name)) :
    read (c :: cs.takeWhile p) = .ok (.identifier name) := by
  unfold run at h
  simp only at h
  split at h
  · next kind hread =>
    obtain rfl := Option.some.inj h
    exact hread
  · cases h

theorem readName_identifier {cs : List Char} {name : String}
    (h : readName cs = .ok (.identifier name)) : name.toList = cs := by
  unfold readName at h
  simp only at h
  split at h
  · cases h
  · obtain rfl := TokenKind.identifier.inj (Except.ok.inj h)
    exact String.toList_ofList

theorem integer_ne_identifier (digits : List Char) (value : Option Word) (name : String) :
    integer digits value ≠ .ok (.identifier name) := by
  intro h
  cases value with
  | none => cases h
  | some n => cases h

theorem readInteger_ne_identifier (cs : List Char) (name : String) :
    readInteger cs ≠ .ok (.identifier name) := by
  -- The value must not be opened: deciding whether it is in range counts up to the limit.
  delta readInteger
  dsimp only
  exact integer_ne_identifier _ _ name

theorem sign?_ne_identifier {c : Char} {cs : List Char} {kind : TokenKind} {length : Nat}
    {rest : List Char} (h : sign? c cs = some (kind, length, rest)) (name : String) :
    kind ≠ .identifier name := by
  rintro rfl
  unfold sign? at h
  cases cs with
  | nil => simp at h
  | cons d more => simp at h

theorem lexeme_isWord {start : Nat} {c : Char} {cs : List Char} {name : String}
    (h : (lexeme start c cs).kind = some (.identifier name)) : IsWord name := by
  unfold lexeme at h
  split at h
  · cases h
  split at h
  · cases h
  split at h
  · unfold Literal.lexeme at h
    simp only at h
    split at h
    · cases Option.some.inj h
    · cases h
  split at h
  · exact absurd (run_identifier h) (readInteger_ne_identifier _ name)
  split at h
  · next hstarts =>
    have hname := readName_identifier (run_identifier h)
    refine ⟨?_, ?_⟩
    · rw [hname]
      exact List.cons_ne_nil _ _
    · intro d hd
      rw [hname] at hd
      rcases List.mem_cons.1 hd with rfl | hd
      · exact continuesName_of_startsName hstarts
      · exact List.mem_takeWhile_imp hd
  split at h
  · next hsign => exact absurd (Option.some.inj h) (sign?_ne_identifier hsign name)
  · cases h

theorem lexemes_isWord {pos : Nat} {cs : List Char} {name : String} :
    ∀ x ∈ lexemes pos cs, x.2.kind = some (.identifier name) → IsWord name := by
  fun_induction lexemes pos cs with
  | case1 =>
    intro x hx
    cases hx
  | case2 pos c cs _ ih =>
    intro x hx hkind
    rcases List.mem_cons.1 hx with rfl | hx
    · exact lexeme_isWord hkind
    · exact ih x hx hkind

theorem hasWord_of_scan {source : List Char} {tokens : List Token}
    (h : scan source = .ok tokens) : ∀ t ∈ tokens, t.HasWord := by
  unfold scan at h
  simp only at h
  split at h
  · obtain rfl := Except.ok.inj h
    intro t ht name hname
    rcases List.mem_append.1 ht with ht | ht
    · obtain ⟨x, hx, hlexeme⟩ := List.mem_filterMap.1 ht
      obtain ⟨kind, hkind, rfl⟩ := Option.map_eq_some_iff.1 hlexeme
      exact lexemes_isWord x hx (hkind.trans (congrArg some hname))
    · rw [List.mem_singleton.1 ht] at hname
      cases hname
  · cases h

end Token

namespace Source

open Token (IsWord HasWord)

theorem Named.isWord {name : String} (h : Named HasWord name) : IsWord name := by
  obtain ⟨t, ht, hname⟩ := h
  exact ht name hname

theorem Program.names_of_ofSource {source : List Char} {p : Program}
    (h : ofSource source = .ok p) :
    p.ReadFrom HasWord (fun e => e.levels ≤ maxNesting)
      fun body => 1 + Stmt.levelsOfAll body ≤ maxNesting := by
  unfold ofSource at h
  split at h
  · cases h
  · next tokens hscan =>
    split at h
    · cases h
    · next program hprogram =>
      obtain rfl := Except.ok.inj h
      exact readFrom_within (Token.hasWord_of_scan hscan) hprogram

end Source

open Token (IsWord)

theorem ofSource_of_parseFiles {sources : List SourceFile} {files : List ParsedFile}
    (h : parseFiles sources = .ok files) :
    ∀ f ∈ files, Source.Program.ofSource f.file.text.toList = .ok f.program := by
  induction sources generalizing files with
  | nil =>
    obtain rfl := Except.ok.inj h
    intro f hf
    cases hf
  | cons source rest ih =>
    unfold parseFiles at h
    split at h
    · next parsed more hparsed hmore =>
      obtain rfl := Except.ok.inj h
      refine List.forall_mem_cons.2 ⟨?_, ih hmore⟩
      unfold SourceFile.parse at hparsed
      split at hparsed
      · next program hprogram =>
        obtain rfl := Except.ok.inj hparsed
        exact hprogram
      · cases hparsed
    · cases h
    · cases h
    · cases h

namespace MethodRef

/-- The method is a word, and nothing but words and dots is in the name of the type. -/
structure Spelled (r : MethodRef) : Prop where
  typeName_ne_nil : r.typeName.toList ≠ []
  typeName : ∀ c ∈ r.typeName.toList, Token.continuesName c = true ∨ c = '.'
  methodName : IsWord r.methodName

theorem toList_written (r : MethodRef) :
    r.written.toList = r.typeName.toList ++ '.' :: r.methodName.toList := by
  simp [written, String.toList_append]

theorem Spelled.written {r : MethodRef} (h : r.Spelled) :
    ∀ c ∈ r.written.toList, Token.continuesName c = true ∨ c = '.' := by
  intro c hc
  rw [toList_written] at hc
  rcases List.mem_append.1 hc with hc | hc
  · exact h.typeName c hc
  · rcases List.mem_cons.1 hc with rfl | hc
    · exact Or.inr rfl
    · exact Or.inl (h.methodName.2 c hc)

end MethodRef

theorem mem_intercalate {parts : List String} {c : Char} :
    c ∈ (".".intercalate parts).toList → c = '.' ∨ ∃ part ∈ parts, c ∈ part.toList := by
  induction parts with
  | nil =>
    intro hc
    simp at hc
  | cons part rest ih =>
    intro hc
    cases rest with
    | nil => exact Or.inr ⟨part, List.mem_cons_self, by simpa using hc⟩
    | cons next more =>
      rw [String.intercalate_cons_cons, String.toList_append, String.toList_append,
        List.mem_append, List.mem_append] at hc
      rcases hc with (hc | hc) | hc
      · exact Or.inr ⟨part, List.mem_cons_self, hc⟩
      · exact Or.inl (List.mem_singleton.1 hc)
      · rcases ih hc with hdot | ⟨other, hother, hc⟩
        · exact Or.inl hdot
        · exact Or.inr ⟨other, List.mem_cons_of_mem _ hother, hc⟩

theorem fullName_spelled {p : Source.Program} {reading : Source.Expr → Prop}
    {executing : List Source.Stmt → Prop} (h : p.ReadFrom Token.HasWord reading executing)
    {name : String} (hname : IsWord name) : (p.fullName name).toList ≠ [] ∧
      ∀ c ∈ (p.fullName name).toList, Token.continuesName c = true ∨ c = '.' := by
  unfold Source.Program.fullName
  cases hspace : p.space with
  | none => exact ⟨hname.1, fun c hc => Or.inl (hname.2 c hc)⟩
  | some space =>
    refine ⟨by simp, ?_⟩
    intro c hc
    rw [String.toList_append, String.toList_append, List.mem_append, List.mem_append] at hc
    rcases hc with (hc | hc) | hc
    · rcases mem_intercalate hc with hdot | ⟨part, hpart, hc⟩
      · exact Or.inr hdot
      · exact Or.inl ((h.space space hspace part hpart).isWord.2 c hc)
    · exact Or.inr (List.mem_singleton.1 hc)
    · exact Or.inl (hname.2 c hc)

/-- Where a method was found. -/
theorem SourceUnit.site?_eq_some {u : SourceUnit} {method : MethodRef} {site : MethodSite}
    (h : u.site? method = some site) : ∃ files, u.parse = .ok files ∧ ∃ f ∈ files,
      ∃ c ∈ f.program.classes, f.program.fullName c.name.node = method.typeName ∧
        ∃ m, c.methods.find? (·.name.node == method.methodName) = some m ∧
          site = ⟨method, m.summary, c.methods.map (·.summary), m.name.span, f.file⟩ := by
  unfold SourceUnit.site? at h
  split at h
  · next files hfiles =>
    obtain ⟨f, hf, hsite⟩ := List.exists_of_findSome?_eq_some h
    obtain ⟨c, hc, hsite⟩ := List.exists_of_findSome?_eq_some hsite
    obtain ⟨hc, hname⟩ := List.mem_filter.1 hc
    obtain ⟨m, hm, hsite⟩ := Option.map_eq_some_iff.1 hsite
    exact ⟨files, hfiles, f, hf, c, hc, by simpa using hname, m, hm, hsite.symm⟩
  · cases h

theorem MethodRef.spelled_of_site {u : SourceUnit} {method : MethodRef} {site : MethodSite}
    (h : u.site? method = some site) : method.Spelled := by
  obtain ⟨files, hfiles, f, hf, c, hc, htype, m, hm, -⟩ := SourceUnit.site?_eq_some h
  have hread := Source.Program.names_of_ofSource (ofSource_of_parseFiles hfiles f hf)
  have hclass := hread.classes c hc
  have hmethod := (hclass.methods m (List.mem_of_find?_eq_some hm)).name.isWord
  have hname : m.name.node = method.methodName := by simpa using List.find?_some hm
  obtain ⟨hne, hall⟩ := fullName_spelled hread hclass.name.isWord
  rw [htype] at hne hall
  exact ⟨hne, hall, hname ▸ hmethod⟩

namespace Runner

/-- The last dot of what is written separates the type from the method. -/
theorem splitFilter_written {r : MethodRef} (h : r.Spelled) :
    splitFilter r.written = .ok (r.typeName, r.methodName) := by
  have hword : ∀ c ∈ r.methodName.toList.reverse, (c != '.') = true := by
    intro c hc
    have hc := h.methodName.2 c (List.mem_reverse.1 hc)
    rw [bne_iff_ne]
    rintro rfl
    exact absurd hc (by decide)
  have hreverse : r.written.toList.reverse =
      r.methodName.toList.reverse ++ '.' :: r.typeName.toList.reverse := by
    rw [MethodRef.toList_written]
    simp
  have hmethod : (r.written.toList.reverse.takeWhile (· != '.')).reverse =
      r.methodName.toList := by
    rw [hreverse, List.takeWhile_append_of_pos hword]
    simp
  have hlength : r.written.toList.length - r.methodName.toList.length - 1 =
      r.typeName.toList.length := by
    rw [MethodRef.toList_written, List.length_append, List.length_cons]
    omega
  have htype : r.written.toList.take r.typeName.toList.length = r.typeName.toList := by
    rw [MethodRef.toList_written, List.take_left]
  have hdot : r.written.toList.contains '.' = true := by simp [MethodRef.toList_written]
  unfold splitFilter
  simp only [hmethod, hlength, htype]
  rw [if_pos ⟨hdot, h.typeName_ne_nil, h.methodName.1⟩, String.ofList_toList, String.ofList_toList]

end Runner

end TestBench
