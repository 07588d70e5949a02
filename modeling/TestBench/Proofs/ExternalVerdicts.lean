import TestBench.Programs.Directories
import TestBench.Programs.Launch
import TestBench.Proofs.MoreFuel
import TestBench.Proofs.ReadBackImages
import TestBench.Proofs.RecordedPlans
import TestBench.Proofs.ScannedReports
import TestBench.Proofs.SpelledText
import TestBench.Verdict.Reporter

/-!
Verdicts by the runner and by the process itself. Both write the closure to an
area, load the same machine from it and arrive at the same plan. But the runner
is not told how deep calls may be, so its run is the one at its own limit; and
what it reports is read back as a failure whether the test failed or could not
be run. The two verdicts are therefore of one kind exactly where a verdict at the
runner's limit, told in this way, is.
-/
namespace TestBench

namespace Verdict

/-- The verdicts are of the same kind, at the same place if they have one. -/
def SameKind (v w : Verdict) : Prop := v.label = w.label ∧ v.place? = w.place?

/-- The verdict has no other place than this one. -/
def IsAt (place : SourcePlace) (v : Verdict) : Prop := ∀ p, v.place? = some p → p = place

theorem sameKind_iff {v w : Verdict} {place : SourcePlace} (hv : v.IsAt place)
    (hw : w.IsAt place) : v.SameKind w ↔ v.label = w.label := by
  refine ⟨fun h => h.1, fun h => ⟨h, ?_⟩⟩
  cases hplace : v.place? with
  | none =>
    cases v <;> cases w <;> simp_all [label, place?]
  | some p =>
    obtain rfl := hv p hplace
    cases v <;> cases w <;> simp_all [label, place?, IsAt]

/-- What a verdict is told as by a report that is read back. An error is told as a failure. -/
def told (effect : Report.NameEffect) : Verdict → String
  | .skipped _ => "skipped"
  | .passed => if effect = .addsDetails then "failed" else "passed"
  | .failed .. | .errored .. => if effect = .endsDetails then "error" else "failed"

end Verdict

/-- The verdict on a method that ran to an outcome. -/
def Report.Outcome.verdict (place : SourcePlace) : Report.Outcome → Verdict
  | .passed => .passed
  | .failed message => .failed message place
  | .error message => .errored message place

/-- A method of a unit is written without anything that a line could be broken at. -/
theorem MethodRef.Spelled.solid_written {method : MethodRef} (h : method.Spelled) :
    Report.Solid method.written := by
  intro c hc
  have hname := h.written c hc
  refine ⟨?_, ?_, ?_⟩
  all_goals
    rintro rfl
    revert hname
    decide

namespace External

variable {r : Report} {place : SourcePlace}

theorem toStringLossy_ofString (s : String) : Utf8.toStringLossy (Utf8.ofString s) = s := by
  rw [Utf8.toStringLossy, Utf8.ofString, Utf8.decode_encode, List.map_map]
  simp

/-- A report is read back as what its outcome is told as. -/
theorem verdictOf_render (hfilter : Report.Solid r.filter) (stderr : Bytes) :
    (verdictOf place ⟨Utf8.ofString r.render, stderr, .code r.outcome.exitCode⟩).label =
        (r.outcome.verdict place).told (Report.nameEffect r.entryFile) ∧
      (verdictOf place ⟨Utf8.ofString r.render, stderr, .code r.outcome.exitCode⟩).IsAt place := by
  have hsection := Report.failureSection?_render hfilter.inline
  have hsuccess : (ExitStatus.code r.outcome.exitCode).isSuccess = true ↔
      r.outcome = .passed := by
    cases r.outcome <;> simp [ExitStatus.isSuccess, Report.Outcome.exitCode]
  rw [verdictOf, toStringLossy_ofString]
  cases hfound : Report.failureSection? r.render with
  | some details =>
    refine ⟨?_, fun p hp => (Option.some.inj hp).symm⟩
    cases heffect : Report.nameEffect r.entryFile <;> cases houtcome : r.outcome <;>
      simp_all [Verdict.label, Verdict.told, Report.Outcome.verdict]
  | none =>
    by_cases hpassed : r.outcome = .passed
    · refine ⟨?_, ?_⟩
      · cases heffect : Report.nameEffect r.entryFile <;>
          simp_all [Verdict.label, Verdict.told, Report.Outcome.verdict]
      · simp [hsuccess.2 hpassed, Verdict.IsAt, Verdict.place?]
    · refine ⟨?_, ?_⟩
      · cases heffect : Report.nameEffect r.entryFile <;> cases houtcome : r.outcome <;>
          simp_all [Verdict.label, Verdict.told, Report.Outcome.verdict]
      · simp [mt hsuccess.1 hpassed, Verdict.IsAt, Verdict.place?, eq_comm]

end External

/-- The files with an area that the images were written to, if that was possible. -/
def Scratch.filled? (directories : TemporaryDirectories) (files : Files) (root : Option String)
    (images : List (String × StoredImage)) : Option (Scratch × Files) :=
  match create directories files root with
  | (_, .error _) => none
  | (made, .ok area) =>
    match area.persist images made with
    | (_, .error _) => none
    | (written, .ok ()) => some (area, written)

namespace Scratch

variable {directories : TemporaryDirectories} {files written : Files} {root : Option String}
  {images : List (String × StoredImage)} {area : Scratch}

theorem filled?_eq_some (h : filled? directories files root images = some (area, written)) :
    ∃ made, create directories files root = (made, .ok area) ∧
      area.persist images made = (written, .ok ()) := by
  unfold filled? at h
  split at h
  · cases h
  · next made found hcreate =>
    split at h
    · cases h
    · next left hpersist =>
      obtain ⟨rfl, rfl⟩ := Prod.mk.inj (Option.some.inj h)
      exact ⟨made, hcreate, hpersist⟩

theorem filled?_eq_none (h : filled? directories files root images = none) : ∃ made e,
    create directories files root = (made, .error e) ∨ ∃ area left,
      create directories files root = (made, .ok area) ∧
        area.persist images made = (left, .error e) := by
  unfold filled? at h
  split at h
  · next made e hcreate => exact ⟨made, e, Or.inl hcreate⟩
  · next made area hcreate =>
    split at h
    · next left e hpersist => exact ⟨made, e, Or.inr ⟨area, left, hcreate, hpersist⟩⟩
    · cases h

/-- Only images with valid names are written to an area. -/
theorem valid_of_filled (h : filled? directories files root images = some (area, written)) :
    ∀ e ∈ images, Image.isValidName e.1 = true := by
  obtain ⟨made, -, hpersist⟩ := filled?_eq_some h
  exact valid_of_persist hpersist

end Scratch

section Areas

variable {directories : TemporaryDirectories} {files written : Files} {closure : Closure}
  (options : ExecutionOptions) {area : Scratch}

theorem Sandbox.openEntry_of_filled (hentry : (closure.get? closure.entry).isNone = false)
    (h : Scratch.filled? directories files options.scratchRoot closure.images.entries =
      some (area, written)) :
    Sandbox.openEntry directories files closure closure.entry options =
      match Machine.load closure.entry (.ofClosure written area.path closure)
          options.maxCallDepth with
      | .error fault => (directories.remove area written, .error (.resolution fault))
      | .ok machine => (written, .ok ⟨machine, area⟩) := by
  obtain ⟨made, hcreate, hpersist⟩ := Scratch.filled?_eq_some h
  rw [openEntry, hentry, hcreate]
  simp only [hpersist]
  rfl

theorem Sandbox.openEntry_of_not_filled {root : Option String}
    (hentry : (closure.get? closure.entry).isNone = false)
    (h : Scratch.filled? directories files root closure.images.entries = none) :
    ∃ e, ∀ options : ExecutionOptions, options.scratchRoot = root →
      (Sandbox.openEntry directories files closure closure.entry options).2 =
        .error (.scratch e) := by
  obtain ⟨made, e, hcreate | ⟨area, left, hcreate, hpersist⟩⟩ := Scratch.filled?_eq_none h
  · refine ⟨e, ?_⟩
    rintro options rfl
    rw [openEntry, hentry, hcreate]
    rfl
  · refine ⟨e, ?_⟩
    rintro options rfl
    rw [openEntry, hentry, hcreate]
    simp only [hpersist]
    rfl

theorem External.run_of_filled {launch : Launch} {program : String} {method : MethodRef}
    (place : SourcePlace) {answer : Option ProgramOutput}
    (h : Scratch.filled? directories files options.scratchRoot closure.images.entries =
      some (area, written))
    (hlaunch : (launch written area.path program
      [Image.fileName closure.entry, filterFlag, method.written]).2 = answer.map .ok) :
    (run directories launch files program closure method place options).2 =
      answer.map (verdictOf place) := by
  obtain ⟨made, hcreate, hpersist⟩ := Scratch.filled?_eq_some h
  rw [run, hcreate]
  simp only [hpersist]
  cases hstarted : launch written area.path program
      [Image.fileName closure.entry, filterFlag, method.written] with
  | mk after result =>
    rw [hstarted] at hlaunch
    obtain rfl : result = answer.map .ok := hlaunch
    cases answer with
    | none => rfl
    | some output => rfl

theorem External.run_of_not_filled (launch : Launch) (program : String) (method : MethodRef)
    (place : SourcePlace)
    (h : Scratch.filled? directories files options.scratchRoot closure.images.entries = none) :
    ∃ message, (run directories launch files program closure method place options).2 =
      some (.errored message place) := by
  obtain ⟨made, e, hcreate | ⟨area, left, hcreate, hpersist⟩⟩ := Scratch.filled?_eq_none h
  · rw [run, hcreate]
    exact ⟨_, rfl⟩
  · rw [run, hcreate]
    simp only [hpersist]
    exact ⟨_, rfl⟩

end Areas

namespace Reporter

variable {files written : Files} {closure : Closure} {area : Scratch}

/-- What a run in an area with the images of the closure comes to, at a depth of calls. -/
def runIn (area : Scratch) (files : Files) (closure : Closure) (plan : FixturePlan)
    (depth fuel : Nat) : Option Report.Outcome :=
  match Machine.load closure.entry (Resolver.ofClosure files area.path closure) depth with
  | .error fault => some (.error fault.message)
  | .ok m => (plan.run m fuel).map Runner.outcomeOf

theorem runInProcess_of_filled (r : Reporter) (plan : FixturePlan) (place : SourcePlace)
    (hentry : (closure.get? closure.entry).isNone = false)
    (h : Scratch.filled? r.directories files r.settings.scratchRoot closure.images.entries =
      some (area, written)) :
    (r.runInProcess files closure plan place).2 =
      (runIn area written closure plan r.settings.maxCallDepth r.fuel).map (·.verdict place) := by
  have hopen := Sandbox.openEntry_of_filled r.settings.options hentry h
  have hdepth : r.settings.options.maxCallDepth = r.settings.maxCallDepth := rfl
  rw [hdepth] at hopen
  rw [runInProcess, hopen, runIn]
  cases Machine.load closure.entry (Resolver.ofClosure written area.path closure)
      r.settings.maxCallDepth with
  | error fault => rfl
  | ok m =>
    simp only [Option.map_map]
    congr 1
    funext outcome
    rw [Function.comp_apply, Runner.outcomeOf]
    cases outcome.failure with
    | none => rfl
    | some failure =>
      simp only
      split
      · rfl
      · rfl

theorem runInProcess_of_not_filled (plan : FixturePlan) (place : SourcePlace)
    {directories : TemporaryDirectories} {root : Option String}
    (hentry : (closure.get? closure.entry).isNone = false)
    (h : Scratch.filled? directories files root closure.images.entries = none) :
    ∃ message, ∀ r : Reporter, r.directories = directories → r.settings.scratchRoot = root →
      (r.runInProcess files closure plan place).2 = some (.errored message place) := by
  obtain ⟨e, hfault⟩ := Sandbox.openEntry_of_not_filled hentry h
  refine ⟨(SandboxFault.scratch e).message, ?_⟩
  rintro r rfl hroot
  have hfault := hfault r.settings.options hroot
  rw [runInProcess]
  cases hopen : Sandbox.openEntry r.directories files closure closure.entry r.settings.options with
  | mk after result =>
    rw [hopen] at hfault
    obtain rfl : result = .error (.scratch e) := hfault
    rfl

/-- How the images of the unit come to be. -/
def closure? (r : Reporter) (world : World) (u : SourceUnit) : Except MaterializeFault Closure :=
  (materialize r.order world.files
    (if r.settings.scope = .processWide then world.store else Store.empty) u).1

/-- What is run for a method, or why nothing is. It does not depend on how it is run. -/
def subject (r : Reporter) (world : World) (u : SourceUnit) (method : MethodRef) :
    Except SkipReason (Closure × MethodSite × Framework) :=
  match u.parse with
  | .error _ => .error .compileFailed
  | .ok _ =>
    match u.site? method with
    | none => .error .methodNotFound
    | some site =>
      match Framework.select r.frameworks site.summary with
      | none => .error .notATest
      | some framework =>
        match r.closure? world u with
        | .error _ => .error .compileFailed
        | .ok closure => .ok (closure, site, framework)

/-- What is run decides the verdict and what becomes of the files. -/
theorem evaluate_judges (r : Reporter) (world : World) (u : SourceUnit) (method : MethodRef) :
    ((r.evaluate world u method).1.files, (r.evaluate world u method).2) =
      match r.subject world u method with
      | .error reason => (world.files, some (.skipped reason))
      | .ok (closure, site, framework) => r.judge world.files closure site framework := by
  unfold evaluate subject
  cases u.parse with
  | error diagnostics => rfl
  | ok files =>
    cases u.site? method with
    | none => rfl
    | some site =>
      cases hframework : Framework.select r.frameworks site.summary with
      | none => simp only [hframework]
      | some framework =>
        cases hclosure : r.closure? world u with
        | error fault =>
          simp only [closure?] at hclosure ⊢
          simp only [hframework, hclosure]
        | ok closure =>
          simp only [closure?] at hclosure ⊢
          simp only [hframework, hclosure]

theorem evaluate_eq (r : Reporter) (world : World) (u : SourceUnit) (method : MethodRef) :
    (r.evaluate world u method).2 = match r.subject world u method with
      | .error reason => some (.skipped reason)
      | .ok (closure, site, framework) => (r.judge world.files closure site framework).2 := by
  refine (congrArg Prod.snd (r.evaluate_judges world u method)).trans ?_
  split
  · rfl
  · rfl

end Reporter

section Runs

variable {area : Scratch} {files : Files} {closure : Closure} {plan : FixturePlan}
  {method : MethodRef}

/-- The runner comes in the area to what is come to outside. -/
theorem Runner.run_within (hback : area.ReadsBack closure.images.entries files)
    (hvalid : ∀ e ∈ closure.images.entries, Image.isValidName e.1 = true)
    (hsealed : Store.Sealed closure.images) (hentry : Image.isValidName closure.entry = true)
    {depth : Nat} (hplan : ∀ m,
      Machine.load closure.entry (.ofClosure files area.path closure) depth = .ok m →
        planFor m method.written = .ok plan) (fuel : Nat) :
    run (area.within files) fuel (Image.fileName closure.entry) method.written depth =
      (Reporter.runIn area files closure plan depth fuel).map
        (⟨Image.fileName closure.entry, method.written, depth, ·⟩) := by
  have hfile : String.ofList ((Path.fileName? (Image.fileName closure.entry).toList).getD []) =
      Image.fileName closure.entry := by
    rw [Image.fileName?_fileName hentry]
    exact String.ofList_toList
  have houtcome : outcome (area.within files) fuel (Image.fileName closure.entry)
      method.written depth = Reporter.runIn area files closure plan depth fuel := by
    rw [outcome, load_within hback hvalid hsealed hentry, Reporter.runIn]
    cases hload : Machine.load closure.entry (.ofClosure files area.path closure) depth with
    | error fault => rfl
    | ok m =>
      simp only [hplan m hload]
  simp only [run, houtcome, hfile]

end Runs

/-- The program answers as the runner does: it prints the report on a run at the runner's own depth
of calls and exits with the code of its outcome. -/
def Launch.RunsTest (launch : Launch) (program : String) (fuel : Nat)
    (entry filter : String) : Prop :=
  ∀ files directory place, files.locate directory = .ok place → ∃ stderr,
    (launch files directory program [entry, External.filterFlag, filter]).2 =
      (Runner.run { files with workingDirectory := place } fuel entry filter
        Machine.defaultCallDepth).map fun report =>
          .ok ⟨Utf8.ofString report.render, stderr, .code report.outcome.exitCode⟩

/-- The runner at its own path does so, whenever it understands what it is asked. -/
theorem Programs.launch_runsTest {fuel : Nat} {environment : List (String × String)}
    {entry filter : String}
    (htext : ∀ word ∈ [runnerPath, entry, External.filterFlag, filter], '\x00' ∉ word.toList)
    (hwords : CommandLine.RunnerArguments.ofWords [entry, External.filterFlag, filter] =
      .ok ⟨entry, filter, Machine.defaultCallDepth⟩) :
    (launch fuel environment).RunsTest runnerPath fuel entry filter := by
  intro files directory place hplace
  have hplain : ¬ (runnerPath :: [entry, External.filterFlag, filter]).any
      (·.toList.contains '\x00') = true := by
    simpa using htext
  refine ⟨[], ?_⟩
  rw [launch, if_neg hplain, if_pos rfl]
  simp only [runTest, hwords, hplace, Option.map_map]
  rfl

namespace Reporter

/-- The reporter with another way to run tests. -/
def running (r : Reporter) (execution : ExecutionMode) : Reporter :=
  { r with settings := { r.settings with execution } }

/-- The reporter that runs tests itself, at the depth of calls that the runner has. -/
def atDefaultDepth (r : Reporter) (fuel : Nat) : Reporter :=
  { r with
    settings := { r.settings with
      execution := .inProcess
      maxCallDepth := Machine.defaultCallDepth }
    fuel := fuel }

/-- The unit has a closure and there is an area that it is written to. -/
def Fills (r : Reporter) (world : World) (u : SourceUnit) : Prop :=
  ∃ closure area written, r.closure? world u = .ok closure ∧
    Scratch.filled? r.directories world.files r.settings.scratchRoot closure.images.entries =
      some (area, written)

variable {r : Reporter} {world : World} {u : SourceUnit} {method : MethodRef}
  {closure : Closure} {site : MethodSite} {framework : Framework}

theorem subject_eq_ok (h : r.subject world u method = .ok (closure, site, framework)) :
    u.site? method = some site ∧ Framework.select r.frameworks site.summary = some framework ∧
      r.closure? world u = .ok closure := by
  unfold subject at h
  split at h
  · cases h
  split at h
  · cases h
  next found hsite =>
    split at h
    · cases h
    next chosen hframework =>
      split at h
      · cases h
      next made hclosure =>
        obtain ⟨rfl, rfl, rfl⟩ : made = closure ∧ found = site ∧ chosen = framework := by
          simpa using h
        exact ⟨hsite, hframework, hclosure⟩

theorem closure?_eq_ok (hstore : world.store.Sealed) (h : r.closure? world u = .ok closure) :
    Store.Sealed closure.images ∧ closure.entry = u.name ∧ Image.isValidName u.name = true ∧
      ∃ interfaces image, compile u interfaces = .ok image ∧ closure.Holds u.name image := by
  let store := if r.settings.scope = .processWide then world.store else Store.empty
  have hsealed : store.Sealed := by
    unfold store
    split
    · exact hstore
    · intro name stored hstored
      cases hstored
  cases hmade : materialize r.order world.files store u with
  | mk result after =>
    have hresult : result = .ok closure := by
      rw [← h, closure?, hmade]
    rw [hresult] at hmade
    obtain ⟨hentry, hvalid, himage⟩ := materialize_entry hmade
    exact ⟨materialize_sealed hsealed hmade, hentry, hvalid, himage⟩

theorem closure?_present (hstore : world.store.Sealed) (h : r.closure? world u = .ok closure) :
    (closure.get? closure.entry).isNone = false := by
  obtain ⟨-, hentry, -, _, _, -, stored, hstored, -⟩ := closure?_eq_ok hstore h
  rw [hentry, hstored]
  rfl

theorem site_method (h : u.site? method = some site) : site.method = method := by
  obtain ⟨_, _, _, _, _, _, _, _, _, hsite⟩ := SourceUnit.site?_eq_some h
  rw [hsite]

/-- The plan for a method, from its source. -/
def planOf (site : MethodSite) (framework : Framework) : FixturePlan :=
  framework.plan site.method.typeName site.method.methodName site.siblings

/-- In an area with the closure the runner finds the plan that the source leads to. -/
theorem planFor_within {area : Scratch} {files : Files} {depth : Nat} {m : Machine}
    (hframeworks : r.frameworks = Framework.all) (hstore : world.store.Sealed)
    (hsubject : r.subject world u method = .ok (closure, site, framework))
    (hback : area.ReadsBack closure.images.entries files)
    (hload : Machine.load closure.entry (.ofClosure files area.path closure) depth = .ok m) :
    Runner.planFor m method.written = .ok (planOf site framework) := by
  obtain ⟨hsite, hframework, hclosure⟩ := subject_eq_ok hsubject
  obtain ⟨-, hentry, -, interfaces, image, hcompile, hholds⟩ := closure?_eq_ok hstore hclosure
  have hserves : (Resolver.ofClosure files area.path closure).Serves closure :=
    Resolver.ofClosure_serves fun name stored hstored =>
      hback.outside name stored (NameMap.mem_of_get? hstored)
  have himage := Machine.image?_entry hserves (hentry ▸ hholds) hload
  rw [Runner.planFor_eq hcompile himage hsite, ← hframeworks, hframework, planOf,
    site_method hsite]

/-- A reporter that runs tests itself comes to what they come to in the filled area. -/
theorem evaluate_inProcess {area : Scratch} {written : Files}
    (hexecution : r.settings.execution = .inProcess) (hstore : world.store.Sealed)
    (hsubject : r.subject world u method = .ok (closure, site, framework))
    (hfilled : Scratch.filled? r.directories world.files r.settings.scratchRoot
      closure.images.entries = some (area, written)) :
    (r.evaluate world u method).2 =
      (runIn area written closure (planOf site framework) r.settings.maxCallDepth r.fuel).map
        (·.verdict site.sourcePlace) := by
  obtain ⟨-, -, hclosure⟩ := subject_eq_ok hsubject
  rw [evaluate_eq, hsubject]
  simp only [judge, hexecution]
  exact runInProcess_of_filled r _ _ (closure?_present hstore hclosure) hfilled

/-- A reporter that starts the runner reads back what tests come to at the runner's own depth. -/
theorem evaluate_external {area : Scratch} {written : Files} {program : String} {fuel : Nat}
    (hexecution : r.settings.execution = .external program)
    (hframeworks : r.frameworks = Framework.all) (hstore : world.store.Sealed)
    (hlaunch : r.launch.RunsTest program fuel (Image.fileName u.name) method.written)
    (hsubject : r.subject world u method = .ok (closure, site, framework))
    (hfilled : Scratch.filled? r.directories world.files r.settings.scratchRoot
      closure.images.entries = some (area, written))
    (hback : area.ReadsBack closure.images.entries written) :
    ∃ stderr, (r.evaluate world u method).2 =
      (runIn area written closure (planOf site framework) Machine.defaultCallDepth fuel).map
        fun outcome =>
          let report : Report := ⟨Image.fileName u.name, method.written,
            Machine.defaultCallDepth, outcome⟩
          External.verdictOf site.sourcePlace
            ⟨Utf8.ofString report.render, stderr, .code report.outcome.exitCode⟩ := by
  obtain ⟨hsite, -, hclosure⟩ := subject_eq_ok hsubject
  obtain ⟨hsealed, hentry, hvalid, -⟩ := closure?_eq_ok hstore hclosure
  rw [← hentry] at hlaunch hvalid ⊢
  have hplan : ∀ m, Machine.load closure.entry (.ofClosure written area.path closure)
      Machine.defaultCallDepth = .ok m →
      Runner.planFor m method.written = .ok (planOf site framework) := fun m hload =>
    planFor_within hframeworks hstore hsubject hback hload
  have hrunner := Runner.run_within hback (Scratch.valid_of_filled hfilled) hsealed hvalid hplan
    fuel
  obtain ⟨stderr, hanswer⟩ := hlaunch written area.path area.place hback.located
  have hanswer : (r.launch written area.path program
      [Image.fileName closure.entry, External.filterFlag, method.written]).2 =
      ((Runner.run (area.within written) fuel (Image.fileName closure.entry) method.written
        Machine.defaultCallDepth).map fun report => ⟨Utf8.ofString report.render, stderr,
          .code report.outcome.exitCode⟩ : Option ProgramOutput).map .ok := by
    rw [hanswer, Option.map_map]
    rfl
  have hread := External.run_of_filled r.settings.options site.sourcePlace hfilled hanswer
  rw [hrunner, Option.map_map, Option.map_map] at hread
  refine ⟨stderr, ?_⟩
  rw [evaluate_eq, hsubject]
  simp only [judge, hexecution, site_method hsite]
  simpa only [Function.comp_def] using hread

theorem evaluate_inProcess_of_not_filled {directories : TemporaryDirectories}
    {root : Option String} (hpresent : (closure.get? closure.entry).isNone = false)
    (hfilled : Scratch.filled? directories world.files root closure.images.entries = none) :
    ∃ message, ∀ r : Reporter, r.settings.execution = .inProcess → r.directories = directories →
      r.settings.scratchRoot = root →
      r.subject world u method = .ok (closure, site, framework) →
        (r.evaluate world u method).2 = some (.errored message site.sourcePlace) := by
  obtain ⟨message, hfault⟩ :=
    runInProcess_of_not_filled (planOf site framework) site.sourcePlace hpresent hfilled
  refine ⟨message, ?_⟩
  intro r hexecution hdirectories hroot hsubject
  rw [evaluate_eq, hsubject]
  simp only [judge, hexecution]
  exact hfault r hdirectories hroot

theorem evaluate_external_of_not_filled {program : String}
    (hexecution : r.settings.execution = .external program)
    (hsubject : r.subject world u method = .ok (closure, site, framework))
    (hfilled : Scratch.filled? r.directories world.files r.settings.scratchRoot
      closure.images.entries = none) :
    ∃ message, (r.evaluate world u method).2 = some (.errored message site.sourcePlace) := by
  rw [evaluate_eq, hsubject]
  simp only [judge, hexecution]
  exact External.run_of_not_filled r.settings.options r.launch program site.method
    site.sourcePlace hfilled

theorem runIn_unique {depth fuel fuel' : Nat} {area : Scratch} {files : Files}
    {plan : FixturePlan} {outcome outcome' : Report.Outcome}
    (h : runIn area files closure plan depth fuel = some outcome)
    (h' : runIn area files closure plan depth fuel' = some outcome') : outcome = outcome' := by
  unfold runIn at h h'
  cases hload : Machine.load closure.entry (Resolver.ofClosure files area.path closure) depth with
  | error fault =>
    rw [hload] at h h'
    exact Option.some.inj (h.symm.trans h')
  | ok m =>
    rw [hload] at h h'
    obtain ⟨made, hmade, rfl⟩ := Option.map_eq_some_iff.1 h
    obtain ⟨made', hmade', rfl⟩ := Option.map_eq_some_iff.1 h'
    rw [FixturePlan.run_unique hmade hmade']

/-- The run of an image that refers to nothing. -/
theorem runIn_alone {area : Scratch} {files : Files} {closure : Closure} {stored : StoredImage}
    {image : Image} (hback : area.ReadsBack closure.images.entries files)
    (hsealed : Store.Sealed closure.images) (hstored : closure.get? closure.entry = some stored)
    (himage : Resolver.decoded closure.entry stored.bytes = .ok image)
    (hnone : image.references = []) (plan : FixturePlan) (depth fuel : Nat) :
    runIn area files closure plan depth fuel =
      (plan.run ⟨closure.entry, [(closure.entry, image)], min depth Machine.callDepthCeiling⟩
        fuel).map Runner.outcomeOf := by
  have hresolve :=
    (Resolver.resolve_ofClosure hback hstored (hsealed _ _ hstored)).trans himage
  rw [runIn, Machine.load_alone hresolve hnone]

theorem outcome_isAt (outcome : Report.Outcome) (place : SourcePlace) :
    (outcome.verdict place).IsAt place := by
  intro p hp
  cases outcome with
  | passed => cases hp
  | failed message => exact (Option.some.inj hp).symm
  | error message => exact (Option.some.inj hp).symm

/-- A test has verdicts of one kind in both ways if and only if nothing could be written, or the
verdict at the runner's own depth is told as the reporter's. -/
theorem external_agrees_iff {r : Reporter} {world : World} {u : SourceUnit} {method : MethodRef}
    {program : String} {fuel : Nat} {inside outside : Verdict}
    (hframeworks : r.frameworks = Framework.all) (hstore : world.store.Sealed)
    (hlaunch : r.launch.RunsTest program fuel (Image.fileName u.name) method.written)
    (hback : ∀ closure area written, r.closure? world u = .ok closure →
      Scratch.filled? r.directories world.files r.settings.scratchRoot closure.images.entries =
        some (area, written) → area.ReadsBack closure.images.entries written)
    (hinside : ((r.running .inProcess).evaluate world u method).2 = some inside)
    (houtside : ((r.running (.external program)).evaluate world u method).2 = some outside) :
    ∃ standard, ((r.atDefaultDepth fuel).evaluate world u method).2 = some standard ∧
      (r.settings.maxCallDepth = Machine.defaultCallDepth → inside = standard) ∧
      (inside.SameKind outside ↔ (r.Fills world u →
        inside.label = standard.told (Report.nameEffect (Image.fileName u.name)))) := by
  cases hsubject : r.subject world u method with
  | error reason =>
    have hskipped : ∀ other : Reporter, other.subject world u method = .error reason →
        (other.evaluate world u method).2 = some (.skipped reason) := by
      intro other hother
      rw [evaluate_eq, hother]
    rw [hskipped (r.running .inProcess) hsubject] at hinside
    rw [hskipped (r.running (.external program)) hsubject] at houtside
    obtain rfl := Option.some.inj hinside
    obtain rfl := Option.some.inj houtside
    exact ⟨_, hskipped (r.atDefaultDepth fuel) hsubject, fun _ => rfl, fun _ _ => rfl,
      fun _ => ⟨rfl, rfl⟩⟩
  | ok found =>
    obtain ⟨closure, site, framework⟩ := found
    obtain ⟨hsite, -, hclosure⟩ := subject_eq_ok hsubject
    cases hfilled : Scratch.filled? r.directories world.files r.settings.scratchRoot
        closure.images.entries with
    | none =>
      -- There is nothing to run, which both ways report before anything else.
      have hempty : ¬ r.Fills world u := by
        rintro ⟨other, area, written, hother, hsome⟩
        obtain rfl := Except.ok.inj (hclosure.symm.trans hother)
        cases hfilled.symm.trans hsome
      obtain ⟨message, hfault⟩ :=
        evaluate_inProcess_of_not_filled (closure?_present hstore hclosure) hfilled
      obtain ⟨reason, hexternal⟩ := evaluate_external_of_not_filled
        (r := r.running (.external program)) rfl hsubject hfilled
      rw [hfault (r.running .inProcess) rfl rfl rfl hsubject] at hinside
      rw [hexternal] at houtside
      obtain rfl := Option.some.inj hinside
      obtain rfl := Option.some.inj houtside
      exact ⟨_, hfault (r.atDefaultDepth fuel) rfl rfl rfl hsubject, fun _ => rfl,
        fun _ hfills => absurd hfills hempty, fun _ => ⟨rfl, rfl⟩⟩
    | some made =>
      obtain ⟨area, written⟩ := made
      have hfills : r.Fills world u := ⟨closure, area, written, hclosure, hfilled⟩
      -- Both ways run one plan in one area, so that only the depth and the report are left.
      rw [evaluate_inProcess (r := r.running .inProcess) rfl hstore hsubject hfilled] at hinside
      obtain ⟨stderr, hexternal⟩ := evaluate_external (r := r.running (.external program)) rfl
        hframeworks hstore hlaunch hsubject hfilled (hback closure area written hclosure hfilled)
      rw [hexternal] at houtside
      obtain ⟨own, hown, rfl⟩ := Option.map_eq_some_iff.1 hinside
      obtain ⟨outcome, houtcome, rfl⟩ := Option.map_eq_some_iff.1 houtside
      have hstandard :=
        evaluate_inProcess (r := r.atDefaultDepth fuel) rfl hstore hsubject hfilled
      refine ⟨outcome.verdict site.sourcePlace, ?_, ?_, ?_⟩
      · exact hstandard.trans (congrArg (Option.map _) houtcome)
      · intro hdepth
        rw [← hdepth] at houtcome
        exact congrArg _ (runIn_unique hown houtcome)
      · obtain ⟨hlabel, hplace⟩ := @External.verdictOf_render ⟨Image.fileName u.name,
          method.written, Machine.defaultCallDepth, outcome⟩ site.sourcePlace
          (MethodRef.spelled_of_site hsite).solid_written stderr
        rw [Verdict.sameKind_iff (outcome_isAt own site.sourcePlace) hplace, hlabel]
        exact ⟨fun hsame _ => hsame, fun hsame => hsame hfills⟩

/-- A test that calls a method seven times deep. -/
def deepUnit : SourceUnit :=
  .mk "App" [⟨"a.tdl", "class T \x7b fn down(n) \x7b if 0 < n \x7b down(n - 1); \x7d \x7d " ++
    "[Test] fn deep() \x7b down(6); \x7d \x7d"⟩] []

def deepTest : MethodRef := ⟨"T", "deep"⟩

/-- Calls are not to be that deep, which the runner does not know. -/
def shallowReporter : Reporter where
  settings := Settings.default.withMaxCallDepth 4
  frameworks := Framework.all
  order := .sorted
  directories := Programs.directories
  launch := Programs.launch 20 []
  fuel := 20

def freshWorld : World := ⟨.fresh, .empty⟩

theorem eq_ok_of_toOption {ε α : Type} {result : Except ε α} {a : α}
    (h : result.toOption = some a) : result = .ok a := by
  cases result with
  | error e => cases h
  | ok b => exact congrArg _ (Option.some.inj h)

theorem freshWorld_sealed : freshWorld.store.Sealed := by
  intro name stored hstored
  cases hstored

theorem deepTest_runs : ∃ closure site framework area written,
    shallowReporter.subject freshWorld deepUnit deepTest = .ok (closure, site, framework) ∧
    Scratch.filled? Programs.directories freshWorld.files none closure.images.entries =
      some (area, written) ∧
    area.ReadsBack closure.images.entries written ∧
    runIn area written closure (planOf site framework) 4 20 =
      some (.failed "maximum call depth of 4 exceeded") ∧
    runIn area written closure (planOf site framework) Machine.defaultCallDepth 20 =
      some .passed := by
  have hcheck : ((shallowReporter.subject freshWorld deepUnit deepTest).toOption.any
      fun (closure, site, framework) =>
        (Scratch.filled? Programs.directories freshWorld.files none closure.images.entries).any
            fun (area, written) =>
          area.ReadsBack closure.images.entries written ∧
          (closure.get? closure.entry).any fun stored =>
            (Resolver.decoded closure.entry stored.bytes).toOption.any fun image =>
              let m (depth : Nat) : Machine := ⟨closure.entry, [(closure.entry, image)], depth⟩
              let plan := planOf site framework
              image.references = [] ∧
                (plan.run (m 4) 20).map Runner.outcomeOf =
                  some (.failed "maximum call depth of 4 exceeded") ∧
                (plan.run (m Machine.defaultCallDepth) 20).map Runner.outcomeOf =
                  some .passed) = true := by
    decide +kernel
  obtain ⟨⟨closure, site, framework⟩, hsubject, hcheck⟩ := (Option.any_eq_true _ _).1 hcheck
  obtain ⟨⟨area, written⟩, hfilled, hcheck⟩ := (Option.any_eq_true _ _).1 hcheck
  obtain ⟨hback, hcheck⟩ := of_decide_eq_true hcheck
  obtain ⟨stored, hstored, hcheck⟩ := (Option.any_eq_true _ _).1 hcheck
  obtain ⟨image, himage, hcheck⟩ := (Option.any_eq_true _ _).1 hcheck
  obtain ⟨hnone, hshallow, hdeep⟩ := of_decide_eq_true hcheck
  have hsubject := eq_ok_of_toOption hsubject
  obtain ⟨-, -, hclosure⟩ := subject_eq_ok hsubject
  obtain ⟨hsealed, -⟩ := closure?_eq_ok freshWorld_sealed hclosure
  have hruns := runIn_alone hback hsealed hstored (eq_ok_of_toOption himage) hnone
  exact ⟨closure, site, framework, area, written, hsubject, hfilled, hback,
    (hruns _ 4 20).trans hshallow, (hruns _ Machine.defaultCallDepth 20).trans hdeep⟩

theorem external_agrees_iff_deep : ∃ inside outside,
    ((shallowReporter.running .inProcess).evaluate freshWorld deepUnit deepTest).2 =
      some inside ∧
    ((shallowReporter.running (.external Programs.runnerPath)).evaluate freshWorld deepUnit
      deepTest).2 = some outside ∧ ¬ inside.SameKind outside := by
  obtain ⟨closure, site, framework, area, written, hsubject, hfilled, hread, hshallow, hdeep⟩ :=
    deepTest_runs
  obtain ⟨-, -, hclosure⟩ := subject_eq_ok hsubject
  have hlaunch : shallowReporter.launch.RunsTest Programs.runnerPath 20
      (Image.fileName deepUnit.name) deepTest.written :=
    Programs.launch_runsTest (by decide) (by decide +kernel)
  have hback : ∀ closure area written,
      shallowReporter.closure? freshWorld deepUnit = .ok closure →
      Scratch.filled? shallowReporter.directories freshWorld.files
        shallowReporter.settings.scratchRoot
        closure.images.entries = some (area, written) →
      area.ReadsBack closure.images.entries written := by
    intro closure' area' written' hclosure' hfilled'
    obtain rfl := Except.ok.inj (hclosure.symm.trans hclosure')
    obtain ⟨rfl, rfl⟩ := Prod.mk.inj (Option.some.inj (hfilled.symm.trans hfilled'))
    exact hread
  have hinside := (evaluate_inProcess (r := shallowReporter.running .inProcess) rfl
    freshWorld_sealed hsubject hfilled).trans (congrArg _ hshallow)
  obtain ⟨stderr, hexternal⟩ := evaluate_external
    (r := shallowReporter.running (.external Programs.runnerPath)) rfl rfl freshWorld_sealed
    hlaunch hsubject hfilled hread
  have houtside := hexternal.trans (congrArg _ hdeep)
  obtain ⟨standard, hstandard, -, hiff⟩ :=
    external_agrees_iff rfl freshWorld_sealed hlaunch hback hinside houtside
  refine ⟨_, _, hinside, houtside, ?_⟩
  rw [hiff]
  intro hsame
  have hfills : shallowReporter.Fills freshWorld deepUnit :=
    ⟨closure, area, written, hclosure, hfilled⟩
  have hpassed := (evaluate_inProcess (r := shallowReporter.atDefaultDepth 20) rfl
    freshWorld_sealed hsubject hfilled).trans (congrArg _ hdeep)
  obtain rfl := Option.some.inj (hpassed.symm.trans hstandard)
  have hname : Report.nameEffect (Image.fileName deepUnit.name) = .nothing :=
    Report.nameEffect_of_line (by decide)
  have htold : "failed" = "passed" := by
    have hlabels := hsame hfills
    rw [hname] at hlabels
    exact hlabels
  exact absurd htold (by decide)

end Reporter

end TestBench
