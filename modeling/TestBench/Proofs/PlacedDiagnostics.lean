import TestBench.Proofs.FaultSpans
import TestBench.Proofs.FileOrder

/-!
Where diagnostics point. What is wrong in a unit, in its text, its syntax or its
names, is reported about one of its files, at a span between two characters of
this file. So the place of a diagnostic is on a line that the file has, and what
is underlined of this line in the printed form is in the line or just past it.
-/
namespace TestBench

open TestBench.Span (AllWithin)

namespace Token

theorem FaultIn.within {before text after : List Char} {f : Spanned LexicalFault}
    (h : FaultIn (byteLength before) (byteLength before) text f) :
    f.span.Within (before ++ (text ++ after)) := by
  obtain ⟨hstart, read, more, rfl, hstop⟩ := h
  have hholds : f.span.Holds (before ++ (read ++ more ++ after)) before read (more ++ after) :=
    ⟨by simp only [List.append_assoc], hstart, hstop⟩
  exact hholds.within

theorem lexemes_within {source before : List Char} {start : Nat} {cs : List Char}
    (hsource : source = before ++ cs) (hstart : start = byteLength before) :
    ∀ x ∈ lexemes start cs, ∀ f ∈ x.2.faults, f.span.Within source := by
  fun_induction lexemes start cs generalizing before with
  | case1 => exact List.forall_mem_nil _
  | case2 start c cs x =>
    rename_i ih
    obtain ⟨text, -, hcs, hstop, hfaults, -⟩ := lexeme_standsFor start c cs
    change c :: cs = text ++ x.rest at hcs
    refine List.forall_mem_cons.2 ⟨fun f hf => ?_, @ih (before ++ text) ?_ ?_⟩
    · have hfault := hfaults f hf
      rw [hstart] at hfault
      rw [hsource, hcs]
      exact hfault.within
    · rw [hsource, hcs, List.append_assoc]
    · rw [byteLength_append, ← hstart]
      exact hstop

/-- All that lexing finds is in the text, be it tokens or faults. -/
theorem scan_within (source : List Char) :
    (∀ tokens, scan source = .ok tokens → ∀ t ∈ tokens, t.span.Within source) ∧
      ∀ faults, scan source = .error faults → ∀ f ∈ faults, f.span.Within source := by
  constructor
  · intro tokens h t ht
    obtain ⟨read, rfl, htiles⟩ := tiles_of_scan h
    rcases List.mem_append.1 ht with ht | ht
    · obtain ⟨-, before, text, after, hholds, -⟩ := htiles.token_holds t ht
      exact hholds.within
    · rw [List.mem_singleton.1 ht]
      exact Span.within_empty (isBoundary_end source)
  · intro faults h f hf
    unfold scan at h
    dsimp only at h
    split at h
    · cases h
    · rw [← Except.error.inj h] at hf
      obtain ⟨x, hx, hf⟩ := List.mem_flatMap.1 hf
      exact @lexemes_within source [] 0 source rfl rfl x hx f hf

end Token

namespace Source.Program

/-- All that reading a text gives is in the text, be it a program or diagnostics. -/
theorem ofSource_within (source : List Char) :
    (∀ program, ofSource source = .ok program → AllWithin source program.spans) ∧
      ∀ fault, ofSource source = .error fault → ∀ d ∈ fault.diagnostics, d.span.Within source := by
  obtain ⟨htokens, hlexical⟩ := Token.scan_within source
  unfold ofSource
  split
  · next faults hscan =>
    refine ⟨fun program h => (nomatch h), fun fault h => ?_⟩
    obtain rfl := Except.error.inj h
    exact List.forall_mem_map.2 (hlexical faults hscan)
  · next tokens hscan =>
    obtain ⟨hprogram, hsyntactic⟩ := ofTokens_placed (htokens tokens hscan)
    split
    · next faults hread =>
      refine ⟨fun program h => (nomatch h), fun fault h => ?_⟩
      obtain rfl := Except.error.inj h
      exact List.forall_mem_map.2 (hsyntactic faults hread)
    · next read hread =>
      refine ⟨fun program h => ?_, fun fault h => (nomatch h)⟩
      obtain rfl := Except.ok.inj h
      exact hprogram read hread

end Source.Program

namespace FileDiagnostic

/-- The diagnostic is about one of the files, and its span is in the text of this file. -/
structure InFileOf (sources : List SourceFile) (d : FileDiagnostic) : Prop where
  file : d.file ∈ sources
  span : d.diagnostic.span.Within d.file.text.toList

theorem InFileOf.mono {sources others : List SourceFile} {d : FileDiagnostic}
    (h : d.InFileOf sources) (hsub : sources ⊆ others) : d.InFileOf others :=
  ⟨hsub h.file, h.span⟩

end FileDiagnostic

section Files

variable {sources : List SourceFile} {file : SourceFile} {parsed : ParsedFile}

theorem SourceFile.parse_ok (h : file.parse = .ok parsed) :
    parsed.file = file ∧ AllWithin file.text.toList parsed.program.spans := by
  unfold parse at h
  split at h
  · next program hprogram =>
    obtain rfl := Except.ok.inj h
    exact ⟨rfl, (Source.Program.ofSource_within _).1 program hprogram⟩
  · cases h

theorem SourceFile.parse_error {ds : List FileDiagnostic} (h : file.parse = .error ds) :
    ∀ d ∈ ds, d.InFileOf [file] := by
  unfold parse at h
  split at h
  · cases h
  · next fault hfault =>
    obtain rfl := Except.error.inj h
    refine List.forall_mem_map.2 fun d hd => ⟨List.mem_singleton_self _, ?_⟩
    exact (Source.Program.ofSource_within _).2 fault hfault d hd

theorem parseFiles_error {ds : List FileDiagnostic} (h : parseFiles sources = .error ds) :
    ∀ d ∈ ds, d.InFileOf sources := by
  induction sources generalizing ds with
  | nil => cases h
  | cons file rest ih =>
    have hfirst : ∀ here, file.parse = .error here → ∀ d ∈ here, d.InFileOf (file :: rest) :=
      fun here hhere d hd => (file.parse_error hhere d hd).mono
        (List.cons_subset_cons _ (List.nil_subset _))
    have hlater : ∀ later, parseFiles rest = .error later →
        ∀ d ∈ later, d.InFileOf (file :: rest) :=
      fun later hrest d hd => (ih hrest d hd).mono (List.subset_cons_self _ _)
    unfold parseFiles at h
    split at h
    · cases h
    · next hrest => exact Except.error.inj h ▸ hlater _ hrest
    · next hhere _ => exact Except.error.inj h ▸ hfirst _ hhere
    · next hhere hrest =>
      rw [← Except.error.inj h]
      exact List.forall_mem_append.2 ⟨hfirst _ hhere, hlater _ hrest⟩

theorem parsed_of_mem {files : List ParsedFile} (h : parseFiles sources = .ok files) :
    ∀ f ∈ files, ∃ s ∈ sources, s.parse = .ok f := by
  have hfiles := parseFiles_eq_ok.1 h
  clear h
  induction hfiles with
  | nil => exact List.forall_mem_nil _
  | cons hf _ ih =>
    refine List.forall_mem_cons.2 ⟨⟨_, List.mem_cons_self, hf⟩, fun g hg => ?_⟩
    obtain ⟨s, hs, hparse⟩ := ih g hg
    exact ⟨s, List.mem_cons_of_mem _ hs, hparse⟩

theorem Compile.AboutTree.inFileOf {files : List ParsedFile} {d : FileDiagnostic}
    (h : AboutTree files d) (hfiles : parseFiles sources = .ok files) : d.InFileOf sources := by
  obtain ⟨f, hf, hfile, hspan⟩ := h
  obtain ⟨s, hs, hparse⟩ := parsed_of_mem hfiles f hf
  obtain ⟨hsame, hwithin⟩ := s.parse_ok hparse
  rw [hsame] at hfile
  refine ⟨hfile ▸ hs, ?_⟩
  rw [hfile]
  exact hwithin _ hspan

theorem compile_inFileOf {u : SourceUnit} {interfaces : List Image} {ds : List FileDiagnostic}
    (h : compile u interfaces = .error ds) : ∀ d ∈ ds, d.InFileOf u.sources := by
  unfold compile at h
  split at h
  · next hparse => exact Except.error.inj h ▸ parseFiles_error hparse
  · next files hfiles => exact fun d hd => (Compile.lowerFiles_aboutTree h d hd).inFileOf hfiles

end Files

namespace Diagnostic

/-- The carets stay below the line, or there is one just past its end. -/
def UnderlineFits (p : Position) (carets : Nat) : Prop :=
  1 ≤ carets ∧ (p.column - 1 + carets ≤ byteLength p.text ∨
    carets = 1 ∧ p.column = byteLength p.text + 1)

theorem underline_fits (d : Diagnostic) {p : Position} (hpositive : 1 ≤ p.column)
    (hle : p.column ≤ byteLength p.text + 1) : UnderlineFits p (d.underline p) := by
  unfold UnderlineFits underline
  omega

/-- The printed text gives the place, and shows the line of the position behind its number; in the
line below, as far from the margin, the carets begin at the column. -/
def Shows (printed place : String) (p : Position) (carets : Nat) : Prop :=
  ∃ front gutter back, gutter = String.ofList (List.replicate (toString p.line).length ' ') ∧
    printed = front ++ ("  --> " ++ place ++ "\n") ++ ("  " ++ gutter ++ " |\n")
      ++ ("  " ++ toString p.line ++ " | " ++ String.ofList p.text ++ "\n")
      ++ ("  " ++ gutter ++ " | " ++ String.ofList (List.replicate (p.column - 1) ' ')
        ++ String.ofList (List.replicate carets '^') ++ "\n") ++ back

theorem render_shows (d : Diagnostic) (file : String) (source : List Char) :
    Shows (d.render file source) (place file (d.position source)) (d.position source)
      (d.underline (d.position source)) := by
  refine ⟨d.headline ++ "\n", _, String.join (d.notes.map (fun note => "  = note: " ++ note ++ "\n")
      ++ d.hints.map (fun hint => "  = hint: " ++ hint ++ "\n")), rfl, ?_⟩
  have hend : " |\n" = " |" ++ "\n" := rfl
  have hgap : " | " = " |" ++ " " := rfl
  simp only [render, hend, hgap, String.join_append, String.join_cons, String.join_nil,
    String.append_assoc, String.empty_append]
  rfl

end Diagnostic

namespace FileDiagnostic

def position (d : FileDiagnostic) : Position := d.diagnostic.position d.file.text.toList

/-- The span is between two characters of a file, the place is on a line of it, and what is
underlined fits this line. -/
structure PointsInto (sources : List SourceFile) (d : FileDiagnostic) : Prop
    extends d.InFileOf sources where
  line : 1 ≤ d.position.line ∧ d.position.line ≤ (splitLines d.file.text.toList).length
  located : ∃ before after,
    d.position.Locates 1 d.file.text.toList d.diagnostic.span.start before after
  fits : Diagnostic.UnderlineFits d.position (d.diagnostic.underline d.position)
  shows : Diagnostic.Shows d.render (Diagnostic.place d.file.path d.position) d.position
    (d.diagnostic.underline d.position)

theorem InFileOf.pointsInto {sources : List SourceFile} {d : FileDiagnostic}
    (h : d.InFileOf sources) : d.PointsInto sources := by
  obtain ⟨before, after, hlocates⟩ := Position.ofOffset_locates h.span.start.le
  refine ⟨h, ?_, ⟨before, after, hlocates⟩, ?_, d.diagnostic.render_shows _ _⟩
  · rw [length_splitLines]
    exact hlocates.line_le
  · exact d.diagnostic.underline_fits hlocates.column_pos hlocates.column_le

end FileDiagnostic

/-- Every diagnostic of a unit, whether its files do not parse or do not compile, points into the
file that it is about, which is one of the unit. -/
theorem diagnostics_pointInto {u : SourceUnit} {interfaces : List Image}
    {ds : List FileDiagnostic} (h : u.parse = .error ds ∨ compile u interfaces = .error ds) :
    ∀ d ∈ ds, d.PointsInto u.sources := by
  rcases h with hparse | hcompile
  · exact fun d hd => (parseFiles_error hparse d hd).pointsInto
  · exact fun d hd => (compile_inFileOf hcompile d hd).pointsInto

/-- A unit that declares a type in both of its files, and in the second one reads a name that means
nothing, behind a character of two bytes. -/
def doubledUnit : SourceUnit :=
  .mk "Shop" [⟨"till.tdl", "class Till \x7b \x7d"⟩,
    ⟨"book.tdl", "class Book \x7b\n  let all = \"é\" + sum;\n\x7d\n\nclass Till \x7b \x7d"⟩] []

theorem diagnostics_pointInto_doubled : ∃ ds, compile doubledUnit [] = .error ds ∧
    ds.map (fun d => (d.file.path, d.diagnostic.span)) =
      [("book.tdl", ⟨46, 50⟩), ("book.tdl", ⟨32, 35⟩)] ∧
    ∀ d ∈ ds, d.PointsInto doubledUnit.sources := by
  have hspans : (match compile doubledUnit [] with
      | .error ds => ds.map fun d => (d.file.path, d.diagnostic.span)
      | .ok _ => []) = [("book.tdl", ⟨46, 50⟩), ("book.tdl", ⟨32, 35⟩)] := by decide +kernel
  cases hcompile : compile doubledUnit [] with
  | ok image =>
    rw [hcompile] at hspans
    cases hspans
  | error ds =>
    rw [hcompile] at hspans
    exact ⟨ds, rfl, hspans, diagnostics_pointInto (Or.inr hcompile)⟩

end TestBench
