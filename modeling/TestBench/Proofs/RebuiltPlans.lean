import TestBench.Proofs.BuiltReferences

/-!
Plans from images. Every method that a unit declares is found in its source and
under its written name in its image, whichever way the image was loaded. So the
runner comes to the plan that verdicts in the process go by, or finds with them
that the method is no test; it never misses a method and never fails to read its
name.
-/
namespace TestBench

/-- What a unit declares can be found in it. -/
theorem SourceUnit.site?_of_mem_methods {u : SourceUnit} {method : MethodRef}
    (h : method ∈ u.methods) : ∃ site, u.site? method = some site := by
  rw [← Option.isSome_iff_exists, site?]
  unfold methods at h
  cases hfiles : u.parse with
  | error diagnostics =>
    rw [hfiles] at h
    cases h
  | ok files =>
    rw [hfiles] at h
    obtain ⟨f, hf, hdeclared⟩ := List.mem_flatMap.1 h
    obtain ⟨c, hc, hmethod⟩ := List.mem_flatMap.1 hdeclared
    obtain ⟨m, hm, rfl⟩ := List.mem_map.1 hmethod
    refine List.findSome?_isSome_iff.2 ⟨f, hf, ?_⟩
    refine List.findSome?_isSome_iff.2 ⟨c, List.mem_filter.2 ⟨hc, beq_self_eq_true _⟩, ?_⟩
    rw [ParsedFile.siteIn?, Option.isSome_map]
    exact List.find?_isSome.2 ⟨m, hm, beq_self_eq_true _⟩

section Plans

variable {order : Materialize.Order} {files : Files} {store after : Store} {u : SourceUnit}
  {closure : Closure} {resolver : Resolver} {depth : Nat} {m : Machine} {method : MethodRef}
  {site : MethodSite}

/-- The image of a unit leads to the plan that its source leads to. -/
theorem planFor_of_site (h : materialize order files store u = (.ok closure, after))
    (hserves : resolver.Serves closure)
    (hload : Machine.load closure.entry resolver depth = .ok m)
    (hsite : u.site? method = some site) :
    Runner.planFor m method.written = match Framework.select Framework.all site.summary with
      | none => .error (.notATest method.written)
      | some framework => .ok (Reporter.planOf site framework) := by
  obtain ⟨hentry, -, interfaces, image, hcompile, hholds⟩ := materialize_entry h
  have himage := Machine.image?_entry hserves (hentry ▸ hholds) hload
  rw [Runner.planFor_eq hcompile himage hsite]
  cases Framework.select Framework.all site.summary with
  | none => rfl
  | some framework =>
    refine congrArg Except.ok ?_
    rw [Reporter.planOf, Reporter.site_method hsite]

/-- A verdict in the process comes from a run by the plan that the runner finds. -/
theorem evaluate_planFor {r : Reporter} {world : World} {made : Closure}
    (hexecution : r.settings.execution = .inProcess) (hframeworks : r.frameworks = Framework.all)
    (hclosure : r.closure? world u = .ok made) (hsite : u.site? method = some site)
    (hplan : Runner.planFor m method.written =
      match Framework.select Framework.all site.summary with
      | none => .error (.notATest method.written)
      | some framework => .ok (Reporter.planOf site framework)) :
    (r.evaluate world u method).2 = match Runner.planFor m method.written with
      | .error _ => some (.skipped .notATest)
      | .ok plan => (r.runInProcess world.files made plan site.sourcePlace).2 := by
  obtain ⟨files, hparse, -⟩ := SourceUnit.site?_eq_some hsite
  rw [hplan, Reporter.evaluate_eq, Reporter.subject, hparse, hsite, hframeworks]
  cases hframework : Framework.select Framework.all site.summary with
  | none => simp only [hframework]
  | some framework =>
    simp only [hframework, hclosure, Reporter.judge, hexecution]
    rfl

/-- From the loaded image the runner comes to the plan that the source leads to, and it finds no
test just where no framework can run the method. -/
theorem planFor_rebuilds (h : materialize order files store u = (.ok closure, after))
    (hserves : resolver.Serves closure)
    (hload : Machine.load closure.entry resolver depth = .ok m) (hmethod : method ∈ u.methods) :
    ∃ site, u.site? method = some site ∧
      (Runner.planFor m method.written =
        match Framework.select Framework.all site.summary with
        | none => .error (.notATest method.written)
        | some framework => .ok (framework.plan site.method.typeName site.method.methodName
            site.siblings)) ∧
      ∀ (r : Reporter) (world : World) (made : Closure), r.settings.execution = .inProcess →
        r.frameworks = Framework.all → r.closure? world u = .ok made →
          (r.evaluate world u method).2 = match Runner.planFor m method.written with
            | .error _ => some (.skipped .notATest)
            | .ok plan => (r.runInProcess world.files made plan site.sourcePlace).2 := by
  obtain ⟨site, hsite⟩ := SourceUnit.site?_of_mem_methods hmethod
  have hplan := planFor_of_site h hserves hload hsite
  exact ⟨site, hsite, hplan, fun r world made hexecution hframeworks hclosure =>
    evaluate_planFor hexecution hframeworks hclosure hsite hplan⟩

end Plans

theorem bookUnit_planned :
    bookUnit.methods = [⟨"Book", "open"⟩, ⟨"Book", "read"⟩, ⟨"Book", "shut"⟩] ∧
    (bookUnit.site? ⟨"Book", "read"⟩).any (fun site =>
      decide ((Framework.select Framework.all site.summary).map (Reporter.planOf site) =
        some ⟨"Book", some "open", "read", some "shut"⟩)) = true := by
  decide +kernel

theorem planFor_rebuilds_book : ∃ closure after m,
    materialize .sorted .fresh .empty bookUnit = (.ok closure, after) ∧
    Machine.load closure.entry (.ofClosure (builtFiles bookUnit) "." closure)
      Machine.defaultCallDepth = .ok m ∧
    Runner.planFor m "Book.read" = .ok ⟨"Book", some "open", "read", some "shut"⟩ := by
  obtain ⟨hmethods, hplanned⟩ := bookUnit_planned
  obtain ⟨closure, after, hrun, hnames, hkept⟩ := bookUnit_kept
  have hserves : (Resolver.ofClosure (builtFiles bookUnit) "." closure).Serves closure :=
    Resolver.ofClosure_serves hkept
  have hsealed : Store.empty.Sealed := by
    intro name stored hstored
    cases hstored
  have hentry : closure.entry ∈ closure.names := by
    rw [(materialize_entry hrun).1, hnames]
    exact List.mem_cons_self
  obtain ⟨m, hload⟩ := Closure.loads (materialize_sound hsealed hrun) hkept hentry
    Machine.defaultCallDepth
  have hmethod : ⟨"Book", "read"⟩ ∈ bookUnit.methods := by
    rw [hmethods]
    exact List.mem_cons_of_mem _ List.mem_cons_self
  obtain ⟨site, hsite, hplan, -⟩ := planFor_rebuilds hrun hserves hload hmethod
  refine ⟨closure, after, m, hrun, hload, ?_⟩
  rw [hsite, Option.any_some, decide_eq_true_eq] at hplanned
  cases hframework : Framework.select Framework.all site.summary with
  | none =>
    rw [hframework] at hplanned
    cases hplanned
  | some framework =>
    rw [hframework] at hplan hplanned
    exact hplan.trans (congrArg Except.ok (Option.some.inj hplanned))

end TestBench
