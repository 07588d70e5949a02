import TestBench.Proofs.PrintedLines

/-!
Reports as they are read back. Every printed line comes back as lines of its
own, so a report is scanned line after line; what the scan captures depends on
the lines before only through whether details have begun and whether they are
over. Markers are words with a blank between them, and no line of a report has
one by accident as long as there is nothing blank in the name of the test. Only
the name of the entry file, which is printed above the details, can bring in
markers of its own.
-/
namespace TestBench

namespace Report

open Text (printed occursIn)

/-- No marker stands in the line. -/
structure Unmarked (line : List Char) : Prop where
  failure : occursIn failureMarker.toList line = false
  settings : occursIn settingsMarker.toList line = false

/-- Markers have blanks in them, so they would begin before what has none. -/
theorem unmarked_append {front back : List Char} (hback : ' ' ∉ back)
    (hfailure : occursIn "Errors ".toList front = false)
    (hsettings : occursIn "Run ".toList front = false) : Unmarked (front ++ back) := by
  refine ⟨Bool.eq_false_iff.2 fun h => ?_, Bool.eq_false_iff.2 fun h => ?_⟩
  · have hwords : occursIn ("Errors".toList ++ ' ' :: "and Failures".toList) (front ++ back) := h
    exact Bool.eq_false_iff.1 hfailure (Text.occursIn_of_append hback hwords)
  · have hwords : occursIn ("Run".toList ++ ' ' :: "Settings".toList) (front ++ back) := h
    exact Bool.eq_false_iff.1 hsettings (Text.occursIn_of_append hback hwords)

/-- Whether details are being read after some lines, if they are not over by then. -/
def capturing (begun : Bool) : List (List Char) → Option Bool
  | [] => some begun
  | line :: rest =>
    if occursIn failureMarker.toList line then capturing true rest
    else if occursIn settingsMarker.toList line then
      if begun then none else capturing false rest
    else capturing begun rest

theorem captured_append (begun : Bool) (first later : List (List Char)) :
    captured begun (first ++ later) = captured begun first ++
      match capturing begun first with
      | none => []
      | some state => captured state later := by
  induction first generalizing begun with
  | nil => rfl
  | cons line rest ih =>
    rw [List.cons_append, captured, captured, capturing]
    split
    · exact ih true
    split
    · cases begun
      · exact ih false
      · rfl
    · split
      · next hbegun =>
        rw [hbegun.1]
        exact congrArg (Text.trim line :: ·) (ih true)
      · exact ih begun

theorem captured_unmarked {line : List Char} (h : Unmarked line) (begun : Bool)
    (rest : List (List Char)) : captured begun (line :: rest) =
      if begun ∧ Text.trim line ≠ [] then Text.trim line :: captured true rest
      else captured begun rest := by
  rw [captured, h.failure, h.settings]
  rfl

theorem captured_eq_nil {ls : List (List Char)}
    (h : ∀ line ∈ ls, occursIn failureMarker.toList line = false) : captured false ls = [] := by
  induction ls with
  | nil => rfl
  | cons line rest ih =>
    obtain ⟨hline, hrest⟩ := List.forall_mem_cons.1 h
    rw [captured, hline]
    simp [ih hrest]

/-- The lines that show the name of the entry file. -/
def shown (file : String) : List (List Char) := printed ("    " ++ file)

/-- The lines below the name of the entry file. -/
def laterLines (r : Report) : List String :=
  "" :: r.detailLines ++ [settingsMarker, "    Where: " ++ r.filter,
    "    MaxCallDepth: " ++ toString r.maxCallDepth, ""] ++ r.summaryLines

theorem lines_render (r : Report) : Text.lines r.render.toList =
    ["tddlive test runner".toList, [], filesMarker.toList] ++
      (shown r.entryFile ++ r.laterLines.flatMap printed) := by
  have hlines : r.printedLines = ["tddlive test runner", "", filesMarker] ++
      (("    " ++ r.entryFile) :: r.laterLines) := by
    simp [printedLines, laterLines]
  rw [render, Text.lines_join, hlines, List.flatMap_append, List.flatMap_cons, shown]
  rfl

theorem captured_render (r : Report) : captured false (Text.lines r.render.toList) =
    captured false (shown r.entryFile) ++ match capturing false (shown r.entryFile) with
      | none => []
      | some state => captured state (r.laterLines.flatMap printed) := by
  have htitle : captured false ["tddlive test runner".toList, [], filesMarker.toList] = [] ∧
      capturing false ["tddlive test runner".toList, [], filesMarker.toList] = some false := by
    decide
  rw [lines_render, captured_append, htitle.1, htitle.2]
  exact captured_append false _ _

/-- A text that stands on one line and is taken for no marker. -/
structure Inline (s : String) : Prop where
  line : '\n' ∉ s.toList
  unmarked : Unmarked s.toList

/-- Nothing blank is in the text. -/
def Solid (s : String) : Prop := ∀ c ∈ s.toList, c ≠ ' ' ∧ c ≠ '\n' ∧ c ≠ '\r'

/-- Both markers have a blank in them. -/
theorem Solid.inline {s : String} (h : Solid s) : Inline s where
  line hmem := (h _ hmem).2.1 rfl
  unmarked := by
    have hblank : ' ' ∉ s.toList := fun hmem => (h _ hmem).1 rfl
    have hplain : Unmarked ([] ++ s.toList) := unmarked_append hblank rfl rfl
    exact hplain

theorem solid_natural (n : Nat) : Solid (toString n) := by
  intro c hc
  have hdigits : (toString n).toList = Nat.toDigits 10 n := Nat.toList_repr
  have hdigit : c.isDigit = true :=
    Nat.isDigit_of_mem_toDigits (by decide) (by decide) (hdigits ▸ hc)
  refine ⟨?_, ?_, ?_⟩
  all_goals
    rintro rfl
    exact absurd hdigit (by decide)

/-- What is printed in front of a text on its line: no marker can begin there. -/
structure Leads (front : String) : Prop where
  line : '\n' ∉ front.toList
  failure : Text.Apart failureMarker.toList front.toList
  settings : Text.Apart settingsMarker.toList front.toList

instance (front : String) : Decidable (Leads front) :=
  decidable_of_iff ('\n' ∉ front.toList ∧ Text.Apart failureMarker.toList front.toList ∧
      Text.Apart settingsMarker.toList front.toList)
    ⟨fun h => ⟨h.1, h.2.1, h.2.2⟩, fun h => ⟨h.line, h.failure, h.settings⟩⟩

/-- A line of a report as it is read back. -/
def readBack (front back : String) : List Char := Text.withoutReturn (front ++ back).toList

section Lines

variable {front back : String}

theorem printed_append (hfront : Leads front) (hback : '\n' ∉ back.toList) :
    printed (front ++ back) = [readBack front back] := by
  have hline : '\n' ∉ (front ++ back).toList := by
    rw [String.toList_append, List.mem_append]
    exact not_or.2 ⟨hfront.line, hback⟩
  rw [printed, Path.splitAt_of_not_mem hline, List.map_singleton, readBack]

theorem occursIn_failure_readBack (hfront : Leads front) :
    occursIn failureMarker.toList (readBack front back) =
      occursIn failureMarker.toList back.toList := by
  rw [readBack, Text.occursIn_withoutReturn (by decide) (by decide), String.toList_append,
    Text.occursIn_append_of_apart hfront.failure]

theorem occursIn_settings_readBack (hfront : Leads front) :
    occursIn settingsMarker.toList (readBack front back) =
      occursIn settingsMarker.toList back.toList := by
  rw [readBack, Text.occursIn_withoutReturn (by decide) (by decide), String.toList_append,
    Text.occursIn_append_of_apart hfront.settings]

theorem unmarked_readBack (hfront : Leads front) (hback : Unmarked back.toList) :
    Unmarked (readBack front back) where
  failure := (occursIn_failure_readBack hfront).trans hback.failure
  settings := (occursIn_settings_readBack hfront).trans hback.settings

end Lines

variable {r : Report}

/-- The settings come first below the name if the test passed, and no details after them. -/
theorem laterLines_passed (hfilter : Inline r.filter) (hpassed : r.outcome = .passed) :
    ∃ closing, (∀ line ∈ closing, occursIn failureMarker.toList line = false) ∧
      r.laterLines.flatMap printed = [] :: settingsMarker.toList :: closing := by
  have hdigits := (solid_natural r.maxCallDepth).inline
  have hwhere : Leads "    Where: " := by decide
  have hdepth : Leads "    MaxCallDepth: " := by decide
  refine ⟨[readBack "    Where: " r.filter,
    readBack "    MaxCallDepth: " (toString r.maxCallDepth)] ++
      ["", summaryMarker, "  Overall result: Passed", countLine 1 0 0].flatMap printed, ?_, ?_⟩
  · rw [List.forall_mem_append, List.forall_mem_cons, List.forall_mem_singleton]
    refine ⟨⟨?_, ?_⟩, by decide⟩
    · exact (unmarked_readBack hwhere hfilter.unmarked).failure
    · exact (unmarked_readBack hdepth hdigits.unmarked).failure
  · have hlines : r.laterLines = ["", settingsMarker] ++ ["    Where: " ++ r.filter] ++
        ["    MaxCallDepth: " ++ toString r.maxCallDepth] ++
        ["", summaryMarker, "  Overall result: Passed", countLine 1 0 0] := by
      simp [laterLines, detailLines, summaryLines, hpassed]
    rw [hlines, List.flatMap_append, List.flatMap_append, List.flatMap_append,
      List.flatMap_singleton, List.flatMap_singleton, printed_append hwhere hfilter.line,
      printed_append hdepth hdigits.line]
    rfl

theorem captured_passed (hfilter : Inline r.filter) (hpassed : r.outcome = .passed)
    (begun : Bool) : captured begun (r.laterLines.flatMap printed) = [] := by
  obtain ⟨closing, hclosing, hlater⟩ := laterLines_passed hfilter hpassed
  have hempty : Unmarked [] := ⟨rfl, rfl⟩
  rw [hlater, captured_unmarked hempty, if_neg (fun h => h.2 rfl)]
  cases begun with
  | true => rfl
  | false =>
    refine captured_eq_nil (List.forall_mem_cons.2 ⟨?_, hclosing⟩)
    decide

/-- A label and a message that are printed if the test did not pass. -/
def Outcome.failure? : Outcome → Option (String × String)
  | .passed => none
  | .failed message => some ("Failed", message)
  | .error message => some ("Error", message)

/-- What the line about the test begins with. -/
def heading (label : String) : String := "1) " ++ label ++ " : "

theorem Outcome.failure?_cases {o : Outcome} {label message : String}
    (h : o.failure? = some (label, message)) : label = "Failed" ∨ label = "Error" := by
  cases o with
  | passed => cases h
  | failed text => exact Or.inl (congrArg Prod.fst (Option.some.inj h)).symm
  | error text => exact Or.inr (congrArg Prod.fst (Option.some.inj h)).symm

theorem heading_leads {label : String} (h : label = "Failed" ∨ label = "Error") :
    Leads (heading label) := by
  rcases h with rfl | rfl <;> decide

/-- The details come first below the name if the test did not pass: the line about the test, the
lines of the message, and a blank line before the settings. -/
theorem laterLines_failure {label message : String} (hfilter : Inline r.filter)
    (h : r.outcome.failure? = some (label, message)) :
    ∃ closing, r.laterLines.flatMap printed =
      [] :: failureMarker.toList :: [] :: readBack (heading label) r.filter ::
        ((Text.lines message.toList).map (fun line => readBack "  " (String.ofList line)) ++
          [] :: settingsMarker.toList :: closing) := by
  have hdetails : r.detailLines = failureLines label r.filter message := by
    cases houtcome : r.outcome with
    | passed =>
      rw [houtcome] at h
      cases h
    | failed text =>
      rw [houtcome] at h
      obtain ⟨rfl, rfl⟩ := Prod.mk.inj (Option.some.inj h)
      rw [detailLines, houtcome]
    | error text =>
      rw [houtcome] at h
      obtain ⟨rfl, rfl⟩ := Prod.mk.inj (Option.some.inj h)
      rw [detailLines, houtcome]
  have hlines : r.laterLines = ["", failureMarker, ""] ++ [heading label ++ r.filter] ++
      (Text.lines message.toList).map (fun line => "  " ++ String.ofList line) ++
      ["", settingsMarker] ++ (["    Where: " ++ r.filter,
        "    MaxCallDepth: " ++ toString r.maxCallDepth, ""] ++ r.summaryLines) := by
    simp [laterLines, hdetails, failureLines, heading]
  have hmessage : ((Text.lines message.toList).map
      (fun line => "  " ++ String.ofList line)).flatMap printed =
        (Text.lines message.toList).map (fun line => readBack "  " (String.ofList line)) := by
    rw [List.flatMap_map, List.map_eq_flatMap]
    refine List.flatMap_congr fun line hline => ?_
    have hfeed : '\n' ∉ (String.ofList line).toList := by
      rw [String.toList_ofList]
      exact Text.not_mem_of_mem_lines hline
    exact printed_append (by decide) hfeed
  refine ⟨(["    Where: " ++ r.filter, "    MaxCallDepth: " ++ toString r.maxCallDepth, ""] ++
    r.summaryLines).flatMap printed, ?_⟩
  rw [hlines, List.flatMap_append, List.flatMap_append, List.flatMap_append, List.flatMap_append,
    List.flatMap_singleton, hmessage,
    printed_append (heading_leads (Outcome.failure?_cases h)) hfilter.line]
  simp [printed, Path.splitAt, Text.withoutReturn]
  rfl

/-- The line about the test is the first of the details. -/
theorem captured_failure {label message : String} (hfilter : Inline r.filter)
    (h : r.outcome.failure? = some (label, message)) (begun : Bool) :
    ∃ closing, captured begun (r.laterLines.flatMap printed) =
      Text.trim (readBack (heading label) r.filter) ::
        captured true ((Text.lines message.toList).map
          (fun line => readBack "  " (String.ofList line)) ++
            [] :: settingsMarker.toList :: closing) := by
  obtain ⟨closing, hlater⟩ := laterLines_failure hfilter h
  have hlabel := Outcome.failure?_cases h
  have hempty : Unmarked [] := ⟨rfl, rfl⟩
  have hheading := unmarked_readBack (heading_leads hlabel) hfilter.unmarked
  have hsolid : Text.trim (readBack (heading label) r.filter) ≠ [] := by
    rw [readBack, Text.trim_withoutReturn, String.toList_append]
    refine Text.trim_ne_nil_of_mem (c := '1') (List.mem_append_left _ ?_) (by decide)
    rcases hlabel with rfl | rfl <;> decide
  refine ⟨closing, ?_⟩
  rw [hlater, captured_unmarked hempty, if_neg (fun h => h.2 rfl)]
  have hmarker : ∀ rest, captured begun (failureMarker.toList :: rest) = captured true rest :=
    fun rest => rfl
  rw [hmarker, captured_unmarked hempty, if_neg (fun h => h.2 rfl), captured_unmarked hheading,
    if_pos ⟨rfl, hsolid⟩]

theorem captured_not_passed (hfilter : Inline r.filter) (hpassed : r.outcome ≠ .passed)
    (begun : Bool) : captured begun (r.laterLines.flatMap printed) ≠ [] := by
  obtain ⟨⟨label, message⟩, hfailure⟩ : ∃ f, r.outcome.failure? = some f := by
    cases houtcome : r.outcome with
    | passed => exact absurd houtcome hpassed
    | failed message => exact ⟨_, rfl⟩
    | error message => exact ⟨_, rfl⟩
  obtain ⟨closing, hcaptured⟩ := captured_failure hfilter hfailure begun
  rw [hcaptured]
  exact List.cons_ne_nil _ _

/-- What the name of an entry file does to the reading of the details below it. -/
inductive NameEffect where
  | nothing
  /-- Parts of the name are taken for details. -/
  | addsDetails
  /-- The name ends the details before there are any. -/
  | endsDetails
  deriving DecidableEq

def nameEffect (file : String) : NameEffect :=
  if captured false (shown file) ≠ [] then .addsDetails
  else if capturing false (shown file) = none then .endsDetails
  else .nothing

/-- A single line is not captured and cannot end what it began. -/
theorem captured_singleton (line : List Char) :
    captured false [line] = [] ∧ capturing false [line] ≠ none := by
  rw [captured, capturing]
  by_cases hfailure : occursIn failureMarker.toList line = true
  · simp [captured, capturing, hfailure]
  · by_cases hsettings : occursIn settingsMarker.toList line = true
    · simp [captured, capturing, hfailure, hsettings]
    · simp [captured, capturing, hfailure, hsettings]

/-- A name of one line does nothing, whichever markers are in it. -/
theorem nameEffect_of_line {file : String} (hfeed : '\n' ∉ file.toList) :
    nameEffect file = .nothing := by
  have hline : '\n' ∉ ("    " ++ file).toList := by
    rw [String.toList_append, List.mem_append]
    exact not_or.2 ⟨by decide, hfeed⟩
  have hshown : shown file = [Text.withoutReturn ("    " ++ file).toList] := by
    rw [shown, printed, Path.splitAt_of_not_mem hline, List.map_singleton]
  obtain ⟨hnothing, hopen⟩ := captured_singleton (Text.withoutReturn ("    " ++ file).toList)
  rw [nameEffect, hshown, if_neg (not_not.2 hnothing), if_neg hopen]

/-- Details are found if the test did not pass or the name of the entry file brings some in, and
nowhere if this name ends them first. -/
theorem failureSection?_render (hfilter : Inline r.filter) :
    failureSection? r.render = none ↔ match nameEffect r.entryFile with
      | .nothing => r.outcome = .passed
      | .addsDetails => False
      | .endsDetails => True := by
  have hnone : failureSection? r.render = none ↔
      captured false (Text.lines r.render.toList) = [] := by
    unfold failureSection?
    split
    · next hnil => simp [hnil]
    · next hne => simpa using hne
  rw [hnone, captured_render, List.append_eq_nil_iff, nameEffect]
  by_cases hname : captured false (shown r.entryFile) = []
  · cases hstate : capturing false (shown r.entryFile) with
    | none => simp [hname]
    | some state =>
      by_cases hpassed : r.outcome = .passed
      · simp [hname, hpassed, captured_passed hfilter hpassed]
      · simp [hname, hpassed, captured_not_passed hfilter hpassed]
  · simp [hname]

end Report

end TestBench
