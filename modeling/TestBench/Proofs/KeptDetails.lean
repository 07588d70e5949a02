import TestBench.Proofs.ScannedReports

/-!
What is left of a message when its report is read back. A report has no way to
quote: a line of the message that has a marker in it is taken for the marker. So
the details are the line about the test and then the lines of the message that
stand before the first one with the settings marker, without those that have the
failure marker and without blank ones, each trimmed. That is the whole message
exactly if no line of it has a marker.
-/
namespace TestBench.Report

open Text (printed occursIn lines trim)

/-- A line that ends the details. A line with both markers begins them again instead. -/
def endsDetails (line : List Char) : Bool :=
  occursIn settingsMarker.toList line && !occursIn failureMarker.toList line

/-- The lines before the details are ended, without those that begin them again. -/
def readLines (ls : List (List Char)) : List (List Char) :=
  (ls.takeWhile (!endsDetails ·)).filter (!occursIn failureMarker.toList ·)

/-- The lines that are not blank, each trimmed. -/
def trimmedLines (ls : List (List Char)) : List (List Char) :=
  (ls.map trim).filter (· ≠ [])

/-- The line about the test. Nothing stands behind its colon if the test has no name. -/
def headline (label filter : String) : List Char :=
  if filter = "" then ("1) " ++ label ++ " :").toList else (heading label ++ filter).toList

def joined (ls : List (List Char)) : String := "\n".intercalate (ls.map String.ofList)

/-- The section of a report that has some of the lines of the message in it. -/
def sectionOf (r : Report) (pick : List (List Char) → List (List Char)) : Option String :=
  r.outcome.failure?.map fun failure =>
    joined (headline failure.1 r.filter :: trimmedLines (pick (lines failure.2.toList)))

/-- A name that is printed on a line of its own and comes back as it is. -/
structure Plain (s : String) : Prop extends Inline s where
  trimmed : trim s.toList = s.toList

section Lines

variable {line : List Char} {rest ls : List (List Char)}

theorem readLines_ends (h : endsDetails line = true) : readLines (line :: rest) = [] := by
  rw [readLines, List.takeWhile_cons_of_neg (by simp [h]), List.filter_nil]

theorem readLines_failure (h : occursIn failureMarker.toList line = true) :
    readLines (line :: rest) = readLines rest := by
  have hgoes : endsDetails line = false := by rw [endsDetails, h, Bool.not_true, Bool.and_false]
  rw [readLines, List.takeWhile_cons_of_pos (by simp [hgoes]),
    List.filter_cons_of_neg (by simp [h]), readLines]

theorem readLines_unmarked (h : Unmarked line) :
    readLines (line :: rest) = line :: readLines rest := by
  have hgoes : endsDetails line = false := by rw [endsDetails, h.settings, Bool.false_and]
  rw [readLines, List.takeWhile_cons_of_pos (by simp [hgoes]),
    List.filter_cons_of_pos (by simp [h.failure]), readLines]

theorem trimmedLines_blank (h : trim line = []) :
    trimmedLines (line :: rest) = trimmedLines rest := by
  rw [trimmedLines, List.map_cons, List.filter_cons_of_neg (by simp [h]), trimmedLines]

theorem trimmedLines_solid (h : trim line ≠ []) :
    trimmedLines (line :: rest) = trim line :: trimmedLines rest := by
  rw [trimmedLines, List.map_cons, List.filter_cons_of_pos (by simpa using h), trimmedLines]

/-- A marker has letters, so a line with one is not blank. -/
theorem trim_ne_nil_of_occursIn {part : List Char} (h : occursIn part line = true)
    (hpart : ∃ c ∈ part, Text.isBlank c = false) : trim line ≠ [] := by
  obtain ⟨c, hc, hsolid⟩ := hpart
  exact Text.trim_ne_nil_of_mem ((Text.occursIn_iff.1 h).subset hc) hsolid

/-- Each line of a message is indented in the report. -/
theorem trim_readBack (line : List Char) :
    trim (readBack "  " (String.ofList line)) = trim line := by
  have hblank : ∀ c ∈ "  ".toList, Text.isBlank c = true :=
    List.all_eq_true.1 (by decide)
  rw [readBack, Text.trim_withoutReturn, String.toList_append, Text.trim_append_of_blank hblank,
    String.toList_ofList]

/-- The scan of a message keeps its lines as far as they are not taken for markers. -/
theorem captured_message (ls closing : List (List Char)) :
    captured true (ls.map (fun line => readBack "  " (String.ofList line)) ++
      [] :: settingsMarker.toList :: closing) = trimmedLines (readLines ls) := by
  induction ls with
  | nil => rfl
  | cons line rest ih =>
    have hindent : Leads "  " := by decide
    have hfailure : occursIn failureMarker.toList (readBack "  " (String.ofList line)) =
        occursIn failureMarker.toList line := by
      rw [occursIn_failure_readBack hindent, String.toList_ofList]
    have hsettings : occursIn settingsMarker.toList (readBack "  " (String.ofList line)) =
        occursIn settingsMarker.toList line := by
      rw [occursIn_settings_readBack hindent, String.toList_ofList]
    rw [List.map_cons, List.cons_append, captured, hfailure, hsettings, trim_readBack, ih]
    by_cases hmarked : occursIn failureMarker.toList line = true
    · rw [if_pos hmarked, readLines_failure hmarked]
    by_cases hends : occursIn settingsMarker.toList line = true
    · have hends' : endsDetails line = true := by simp [endsDetails, hmarked, hends]
      rw [if_neg hmarked, if_pos hends, if_pos rfl, readLines_ends hends']
      rfl
    · have hplain : Unmarked line := ⟨Bool.eq_false_iff.2 hmarked, Bool.eq_false_iff.2 hends⟩
      rw [if_neg hmarked, if_neg hends, readLines_unmarked hplain]
      by_cases hblank : trim line = []
      · rw [if_neg (fun h => h.2 hblank), trimmedLines_blank hblank]
      · rw [if_pos ⟨rfl, hblank⟩, trimmedLines_solid hblank]

theorem readLines_length_le (ls : List (List Char)) :
    (trimmedLines (readLines ls)).length ≤ (trimmedLines ls).length := by
  have hsub : (readLines ls).Sublist ls :=
    List.filter_sublist.trans (List.takeWhile_sublist _)
  exact ((hsub.map trim).filter _).length_le

/-- All lines are read exactly if none has a marker. -/
theorem readLines_eq_iff (ls : List (List Char)) :
    trimmedLines (readLines ls) = trimmedLines ls ↔ ∀ line ∈ ls, Unmarked line := by
  induction ls with
  | nil => simp [readLines]
  | cons line rest ih =>
    rw [List.forall_mem_cons]
    by_cases hplain : Unmarked line
    · rw [readLines_unmarked hplain]
      by_cases hblank : trim line = []
      · rw [trimmedLines_blank hblank, trimmedLines_blank hblank, ih]
        exact (and_iff_right hplain).symm
      · rw [trimmedLines_solid hblank, trimmedLines_solid hblank, List.cons_inj_right, ih]
        exact (and_iff_right hplain).symm
    · refine iff_of_false (fun heq => ?_) (fun h => hplain h.1)
      have hlength := congrArg List.length heq
      have hle := readLines_length_le rest
      by_cases hmarked : occursIn failureMarker.toList line = true
      · have hsolid := trim_ne_nil_of_occursIn hmarked ⟨'E', by decide, by decide⟩
        rw [readLines_failure hmarked, trimmedLines_solid hsolid, List.length_cons] at hlength
        omega
      · have hends : occursIn settingsMarker.toList line = true := by
          by_contra hnot
          exact hplain ⟨Bool.eq_false_iff.2 hmarked, Bool.eq_false_iff.2 hnot⟩
        have hsolid := trim_ne_nil_of_occursIn hends ⟨'R', by decide, by decide⟩
        rw [readLines_ends (by simp [endsDetails, hmarked, hends]), trimmedLines_solid hsolid,
          List.length_cons] at hlength
        simp [trimmedLines] at hlength

end Lines

variable {r : Report}

theorem trim_heading {label : String} (hlabel : label = "Failed" ∨ label = "Error")
    (hfilter : Plain r.filter) :
    trim (readBack (heading label) r.filter) = headline label r.filter := by
  rw [readBack, Text.trim_withoutReturn, headline]
  split
  · next hempty =>
    rw [hempty]
    rcases hlabel with rfl | rfl <;> decide
  · next hname =>
    obtain ⟨front, hfront⟩ : ∃ front, (heading label).toList = '1' :: front := by
      rcases hlabel with rfl | rfl <;> exact ⟨_, rfl⟩
    have hsolid : r.filter.toList ≠ [] := fun h => hname (String.toList_eq_nil_iff.1 h)
    rw [String.toList_append, hfront]
    exact Text.trim_append_of_trimmed (by decide) front hfilter.trimmed hsolid

/-- A name in one line without markers leaves nothing behind. -/
theorem captured_shown {file : String} (hfile : Inline file) :
    captured false (shown file) = [] ∧ capturing false (shown file) = some false := by
  have hindent : Leads "    " := by decide
  have hplain := unmarked_readBack hindent hfile.unmarked
  rw [shown, printed_append hindent hfile.line]
  refine ⟨?_, ?_⟩
  · rw [captured_unmarked hplain, if_neg fun h => Bool.false_ne_true h.1]
    rfl
  · rw [capturing, hplain.failure, hplain.settings]
    rfl

theorem captured_plain (hfile : Inline r.entryFile) (hfilter : Plain r.filter) :
    captured false (lines r.render.toList) = match r.outcome.failure? with
      | none => []
      | some (label, message) =>
        headline label r.filter :: trimmedLines (readLines (lines message.toList)) := by
  obtain ⟨hnothing, hopen⟩ := captured_shown hfile
  rw [captured_render, hnothing, hopen, List.nil_append]
  cases hfailure : r.outcome.failure? with
  | none =>
    have hpassed : r.outcome = .passed := by
      cases houtcome : r.outcome <;> simp_all [Outcome.failure?]
    exact captured_passed hfilter.toInline hpassed false
  | some failure =>
    obtain ⟨label, message⟩ := failure
    obtain ⟨closing, hcaptured⟩ := captured_failure hfilter.toInline hfailure false
    change captured false (r.laterLines.flatMap printed) = _
    rw [hcaptured, trim_heading (Outcome.failure?_cases hfailure) hfilter, captured_message]

/-- Lines that are joined are told apart by the line feeds between them. -/
theorem joined_inj {ls others : List (List Char)} (hls : ls ≠ []) (hothers : others ≠ [])
    (hfeed : ∀ line ∈ ls, '\n' ∉ line) (hfeeds : ∀ line ∈ others, '\n' ∉ line)
    (h : joined ls = joined others) : ls = others := by
  have hplain : ∀ lines : List (List Char),
      (lines.map String.ofList).map String.toList = lines := by
    intro lines
    simp [Function.comp_def]
  have hjoined := congrArg String.toList h
  rw [joined, joined, String.toList_intercalate, String.toList_intercalate, hplain,
    hplain] at hjoined
  have hsplit := congrArg (Path.splitAt '\n') hjoined
  rwa [show "\n".toList = ['\n'] from rfl, Path.splitAt_intercalate hls hfeed,
    Path.splitAt_intercalate hothers hfeeds] at hsplit

theorem not_mem_headline {label filter : String} (hlabel : label = "Failed" ∨ label = "Error")
    (hfilter : '\n' ∉ filter.toList) : '\n' ∉ headline label filter := by
  rw [headline]
  split
  · rcases hlabel with rfl | rfl <;> decide
  · rw [String.toList_append, List.mem_append]
    exact not_or.2 ⟨(heading_leads hlabel).line, hfilter⟩

theorem not_mem_trimmedLines {ls : List (List Char)} (h : ∀ line ∈ ls, '\n' ∉ line) :
    ∀ line ∈ trimmedLines ls, '\n' ∉ line := by
  intro trimmed htrimmed
  obtain ⟨line, hline, rfl⟩ := List.mem_map.1 (List.mem_filter.1 htrimmed).1
  exact fun hmem => h line hline (Text.trim_subset line hmem)

theorem readLines_subset (ls : List (List Char)) : readLines ls ⊆ ls :=
  (List.filter_sublist.trans (List.takeWhile_sublist _)).subset

/-- The section is the whole one exactly if nothing in the message is taken for a marker. -/
theorem sectionOf_readLines_iff (hfilter : Plain r.filter) :
    r.sectionOf readLines = r.sectionOf id ↔ ∀ label message,
      r.outcome.failure? = some (label, message) →
        ∀ line ∈ lines message.toList, Unmarked line := by
  unfold sectionOf
  cases hfailure : r.outcome.failure? with
  | none => simp
  | some failure =>
    obtain ⟨label, message⟩ := failure
    have hfeed : ∀ line ∈ lines message.toList, '\n' ∉ line :=
      fun _ hline => Text.not_mem_of_mem_lines hline
    have hread : ∀ line ∈ readLines (lines message.toList), '\n' ∉ line :=
      fun line hline => hfeed line (readLines_subset _ hline)
    have hhead := not_mem_headline (Outcome.failure?_cases hfailure) hfilter.line
    have hwhole : joined (headline label r.filter ::
          trimmedLines (readLines (lines message.toList))) =
          joined (headline label r.filter :: trimmedLines (lines message.toList)) ↔
        ∀ line ∈ lines message.toList, Unmarked line := by
      rw [← readLines_eq_iff]
      refine ⟨fun heq => ?_, fun heq => by rw [heq]⟩
      have hsame := joined_inj (List.cons_ne_nil _ _) (List.cons_ne_nil _ _)
        (List.forall_mem_cons.2 ⟨hhead, not_mem_trimmedLines hread⟩)
        (List.forall_mem_cons.2 ⟨hhead, not_mem_trimmedLines hfeed⟩) heq
      exact (List.cons.inj hsame).2
    rw [Option.map_some, Option.map_some, Option.some.injEq]
    refine hwhole.trans ⟨fun h _ _ heq => ?_, fun h => h label message rfl⟩
    obtain ⟨-, rfl⟩ := Prod.mk.inj (Option.some.inj heq)
    exact h

theorem failureSection?_eq_sectionOf (hfile : Inline r.entryFile) (hfilter : Plain r.filter) :
    failureSection? r.render = r.sectionOf readLines := by
  rw [failureSection?, captured_plain hfile hfilter, sectionOf]
  cases r.outcome.failure? with
  | none => rfl
  | some failure => rfl

/-- A report gives back the details as far as no line of them is taken for a marker, and all of them
exactly if none is. -/
theorem failureSection?_render_plain (hfile : Inline r.entryFile) (hfilter : Plain r.filter) :
    failureSection? r.render = r.sectionOf readLines ∧
      (failureSection? r.render = r.sectionOf id ↔ ∀ label message,
        r.outcome.failure? = some (label, message) →
          ∀ line ∈ lines message.toList, Unmarked line) := by
  have hsection := failureSection?_eq_sectionOf hfile hfilter
  exact ⟨hsection, hsection ▸ sectionOf_readLines_iff hfilter⟩

/-- A message with a blank line, blanks around a line, and both markers. -/
def quotingReport : Report where
  entryFile := "A.tdi"
  filter := "T.t"
  maxCallDepth := 128
  outcome := .failed "1\r\n\n 2\nsee Errors and Failures\n3\nRun Settings\n4"

theorem quotingReport_inline : Inline quotingReport.entryFile :=
  ⟨by decide, by decide, by decide⟩

theorem quotingReport_plain : Plain quotingReport.filter :=
  ⟨⟨by decide, by decide, by decide⟩, by decide⟩

theorem sectionOf_quoting (pick : List (List Char) → List (List Char)) :
    quotingReport.sectionOf pick = some (joined ("1) Failed : T.t".toList ::
      trimmedLines (pick (["1", "", " 2", "see Errors and Failures", "3", "Run Settings", "4"].map
        String.toList)))) := by
  have hlines : lines "1\r\n\n 2\nsee Errors and Failures\n3\nRun Settings\n4".toList =
      ["1", "", " 2", "see Errors and Failures", "3", "Run Settings", "4"].map String.toList := by
    decide
  have hheadline : headline "Failed" "T.t" = "1) Failed : T.t".toList := by decide
  rw [← hlines, ← hheadline]
  rfl

theorem sectionOf_readLines_quoting :
    quotingReport.sectionOf readLines = some "1) Failed : T.t\n1\n2\n3" :=
  (sectionOf_quoting readLines).trans (by decide +kernel)

theorem failureSection?_render_plain_quoting :
    Inline quotingReport.entryFile ∧ Plain quotingReport.filter ∧
      failureSection? quotingReport.render = quotingReport.sectionOf readLines ∧
      quotingReport.sectionOf readLines = some "1) Failed : T.t\n1\n2\n3" :=
  ⟨quotingReport_inline, quotingReport_plain,
    (failureSection?_render_plain quotingReport_inline quotingReport_plain).1,
    sectionOf_readLines_quoting⟩

/-- A message with markers in it does not come back as a whole, although both names are plain. -/
theorem failureSection?_render_quoting :
    Plain quotingReport.entryFile ∧ Plain quotingReport.filter ∧
      failureSection? quotingReport.render = some "1) Failed : T.t\n1\n2\n3" ∧
      quotingReport.sectionOf id =
        some "1) Failed : T.t\n1\n2\nsee Errors and Failures\n3\nRun Settings\n4" ∧
      failureSection? quotingReport.render ≠ quotingReport.sectionOf id := by
  have hread : failureSection? quotingReport.render = some "1) Failed : T.t\n1\n2\n3" :=
    (failureSection?_eq_sectionOf quotingReport_inline quotingReport_plain).trans
      sectionOf_readLines_quoting
  have hwhole : quotingReport.sectionOf id =
      some "1) Failed : T.t\n1\n2\nsee Errors and Failures\n3\nRun Settings\n4" :=
    (sectionOf_quoting id).trans (by decide +kernel)
  refine ⟨⟨quotingReport_inline, by decide +kernel⟩, quotingReport_plain, hread, hwhole, ?_⟩
  rw [hread, hwhole]
  decide

end TestBench.Report
