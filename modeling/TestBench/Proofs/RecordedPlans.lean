import TestBench.Proofs.SpelledNames
import TestBench.Proofs.WellFormedImages

/-!
How a test is run, from its source and from its image. An image records of every
method what a test framework sees of it, under the full name of its type, so the
image of a unit leads to the same plan as the source that it was compiled from.
-/
namespace TestBench

namespace Compile.Accepted

variable {unitName : String} {references : List String} {files : List ParsedFile}
  {interfaces : List Image} {image : Image}

theorem summary_method (site : Site) (m : Source.Method) :
    Runner.summary (site.method m).1 = m.summary := rfl

theorem type?_of_class (h : Accepted unitName references files interfaces image)
    {f : ParsedFile} (hf : f ∈ files) {c : Source.ClassDecl} (hc : c ∈ f.program.classes) :
    ∃ t, image.type? (f.program.fullName c.name.node) = some t ∧
      t.methods.map Runner.summary = c.methods.map (·.summary) := by
  let own := (OwnType.ofClass f c).1
  have hown : own ∈ declaredTypes files := mem_declaredTypes.2 ⟨f, hf, c, hc, rfl⟩
  refine ⟨(lowerType (.ofFiles unitName files interfaces) own).1, ?_, ?_⟩
  · rw [h.type?_eq]
    exact congrArg (Option.map _) (h.find?_fullName hown)
  · rw [lowerType_eq, List.map_map]
    exact List.map_congr_left fun m _ => summary_method _ m

end Compile.Accepted

namespace Runner

variable {u : SourceUnit} {interfaces : List Image} {image : Image} {m : Machine}
  {method : MethodRef} {site : MethodSite}

/-- What a framework makes of a method is found in the image as it is found in the source. -/
theorem planFor_eq (hcompile : compile u interfaces = .ok image)
    (himage : m.image? m.entry = some image) (hsite : u.site? method = some site) :
    planFor m method.written = match Framework.select Framework.all site.summary with
      | none => .error (.notATest method.written)
      | some framework =>
        .ok (framework.plan method.typeName method.methodName site.siblings) := by
  obtain ⟨files, hfiles, haccepted⟩ := Compile.accepted_of_compile hcompile
  obtain ⟨found, hfound, f, hf, c, hc, htype, decl, hdecl, rfl⟩ := SourceUnit.site?_eq_some hsite
  obtain rfl := Except.ok.inj (hfiles.symm.trans hfound)
  obtain ⟨t, ht, hsiblings⟩ := haccepted.type?_of_class hf hc
  rw [htype] at ht
  have hmethod : (c.methods.map (·.summary)).find? (·.name == method.methodName) =
      some decl.summary := by
    rw [List.find?_map]
    exact congrArg (Option.map _) hdecl
  unfold planFor
  rw [splitFilter_written (MethodRef.spelled_of_site hsite), himage]
  cases hframework : Framework.select Framework.all decl.summary with
  | none => simp only [bind, Except.bind, Option.bind_some, ht, hsiblings, hmethod, hframework]
  | some framework =>
    simp only [bind, Except.bind, Option.bind_some, ht, hsiblings, hmethod, hframework]

end Runner

end TestBench
