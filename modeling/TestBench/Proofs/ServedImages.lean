import TestBench.Proofs.LoadedImages

/-!
What runs depend on. A machine is asked only for its bound on the depth of calls
and for the types under full names, so machines that agree on these run alike,
whatever order their images list the types in. An image can therefore be served
in the place of another one that has the same references and the same types:
the same names are loaded, and every run is as before.
-/
namespace TestBench

namespace Machine

section Runs

variable {m m' : Machine}

theorem methodFor_alike
    (htypes : ∀ unit typeName, m.typeDecl unit typeName = m'.typeDecl unit typeName) :
    m.methodFor = m'.methodFor := by
  funext self name count
  simp only [methodFor, htypes]

theorem runs_alike (hdepth : m.maxCallDepth = m'.maxCallDepth)
    (htypes : ∀ unit typeName, m.typeDecl unit typeName = m'.typeDecl unit typeName) (fuel : Nat) :
    m.callMethod fuel = m'.callMethod fuel ∧ m.construct fuel = m'.construct fuel := by
  induction fuel with
  | zero =>
    constructor
    · funext depth name args
      rw [callMethod, callMethod]
    · funext depth unit typeName
      rw [construct, construct]
  | succ fuel ih =>
    obtain ⟨hcall, hconstruct⟩ := ih
    constructor
    · funext depth name args self
      simp only [callMethod, hdepth, methodFor_alike htypes, hcall, hconstruct]
    · funext depth unit typeName
      simp only [construct, htypes, hcall, hconstruct]

/-- Machines whose runs are the same, with any amount of fuel. -/
structure RunsLike (m m' : Machine) : Prop where
  callMethod_eq : m.callMethod = m'.callMethod
  construct_eq : m.construct = m'.construct
  instantiate_eq : m.instantiate = m'.instantiate
  invoke_eq : m.invoke = m'.invoke

theorem runsLike_of_types (hdepth : m.maxCallDepth = m'.maxCallDepth)
    (htypes : ∀ unit typeName, m.typeDecl unit typeName = m'.typeDecl unit typeName) :
    m.RunsLike m' := by
  have hcall : m.callMethod = m'.callMethod :=
    funext fun fuel => (runs_alike hdepth htypes fuel).1
  have hconstruct : m.construct = m'.construct :=
    funext fun fuel => (runs_alike hdepth htypes fuel).2
  refine ⟨hcall, hconstruct, ?_, ?_⟩
  · funext fuel unit typeName
    rw [instantiate, instantiate, hconstruct]
  · funext fuel self method
    rw [invoke, invoke, hcall]

end Runs

/-- An entry of a machine, with another image if it has this name. -/
def served (name : String) (image : Image) (e : String × Image) : String × Image :=
  (e.1, if e.1 = name then image else e.2)

/-- The machine with another image under a name that it has loaded. -/
def serving (m : Machine) (name : String) (image : Image) : Machine :=
  { m with images := m.images.map (served name image) }

end Machine

/-- The resolver that gives this image for a name. -/
def Resolver.serving (r : Resolver) (name : String) (image : Image) : Resolver :=
  ⟨r.index, fun other => if other = name then .ok image else r.fetch other⟩

namespace Machine

section Served

variable {r : Resolver} {name : String} {image old : Image}

theorem image?_serving (m : Machine) (other : String) :
    (m.serving name image).image? other =
      (m.image? other).map fun found => if other = name then image else found := by
  have hfind : (m.serving name image).images.find? (·.1 == other) =
      (m.images.find? (·.1 == other)).map (served name image) := List.find?_map
  rw [image?, image?, hfind]
  cases hold : m.images.find? (·.1 == other) with
  | none => rfl
  | some e =>
    have hname : e.1 = other := by simpa using List.find?_some hold
    subst hname
    rfl

theorem typeDecl_serving {m : Machine}
    (h : ∀ found, m.image? name = some found →
      ∀ typeName, image.type? typeName = found.type? typeName) (unit typeName : String) :
    (m.serving name image).typeDecl unit typeName = m.typeDecl unit typeName := by
  rw [typeDecl, typeDecl, image?_serving]
  cases hold : m.image? unit with
  | none => rfl
  | some found =>
    by_cases hunit : unit = name
    · subst hunit
      simp only [Option.map_some, if_true, h found hold]
    · simp only [Option.map_some, if_neg hunit]

theorem fetch_of_resolve (h : r.resolve name = .ok image) : r.fetch name = .ok image := by
  unfold Resolver.resolve at h
  rwa [if_pos (index_of_resolve h)] at h

theorem resolve_serving (h : r.fetch name = .ok old) (image : Image) (other : String) :
    (r.serving name image).resolve other =
      (r.resolve other).map fun found => if other = name then image else found := by
  unfold Resolver.resolve Resolver.serving
  by_cases hindex : r.index.contains other = true
  · simp only [hindex, if_true]
    by_cases hother : other = name
    · subst hother
      simp [h, Except.map]
    · simp only [if_neg hother]
      cases r.fetch other <;> rfl
  · simp only [if_neg hindex]
    rfl

theorem served_references (h : r.fetch name = .ok old)
    (hreferences : image.references = old.references) {other : String} {found : Image}
    (hfound : r.resolve other = .ok found) :
    (served name image (other, found)).2.references = found.references := by
  by_cases hother : other = name
  · subst hother
    obtain rfl : old = found := Except.ok.inj (h.symm.trans (fetch_of_resolve hfound))
    rw [served, if_pos rfl, hreferences]
  · rw [served, if_neg hother]

/-- The names that are loaded stay the same when an image is replaced by one with the same
references. -/
theorem loadQueue_serving (h : r.fetch name = .ok old)
    (hreferences : image.references = old.references) (loaded : List (String × Image))
    (queue : List String) :
    loadQueue (r.serving name image) (loaded.map (served name image)) queue =
      (loadQueue r loaded queue).map (List.map (served name image)) := by
  have hany : ∀ (entries : List (String × Image)) other,
      (entries.map (served name image)).any (·.1 == other) = entries.any (·.1 == other) := by
    intro entries other
    rw [List.any_map]
    rfl
  fun_induction loadQueue r loaded queue with
  | case1 loaded =>
    rw [loadQueue]
    rfl
  | case2 loaded other rest hpresent ih =>
    rw [loadQueue, dif_pos ((hany loaded other).trans hpresent)]
    exact ih
  | case3 loaded other rest habsent fault hfault =>
    have hresolve := resolve_serving h image other
    rw [hfault] at hresolve
    rw [loadQueue, dif_neg (by rwa [hany])]
    split
    · next found hfound =>
      cases hresolve.symm.trans hfound
      rfl
    · next found hfound => cases hresolve.symm.trans hfound
  | case4 loaded other rest habsent found hfound ih =>
    have hresolve := resolve_serving h image other
    rw [hfound] at hresolve
    rw [loadQueue, dif_neg (by rwa [hany])]
    split
    · next fault hfault => cases hresolve.symm.trans hfault
    · next image' himage' =>
      obtain rfl := Except.ok.inj (hresolve.symm.trans himage')
      have hsame := served_references h hreferences hfound
      rw [List.map_append] at ih
      rw [← ih, ← hsame]
      rfl

theorem load_serving (h : r.fetch name = .ok old) (hreferences : image.references = old.references)
    (entry : String) (depth : Nat) :
    load entry (r.serving name image) depth =
      (load entry r depth).map (·.serving name image) := by
  have hqueue := loadQueue_serving h hreferences [] [entry]
  rw [List.map_nil] at hqueue
  rw [load, load, hqueue]
  cases loadQueue r [] [entry] <;> rfl

end Served

end Machine

namespace Image

/-- The other image can be served under the name of the image: machines load as before, and all
their runs are the same. -/
def RunsAs (image other : Image) : Prop :=
  ∀ (r : Resolver) (entry : String) (depth : Nat), r.fetch image.name = .ok image →
    Machine.load entry (r.serving image.name other) depth =
      (Machine.load entry r depth).map (·.serving image.name other) ∧
    ∀ m, Machine.load entry r depth = .ok m → (m.serving image.name other).RunsLike m

theorem runsAs {image other : Image} (hreferences : other.references = image.references)
    (htypes : ∀ fullName, other.type? fullName = image.type? fullName) : image.RunsAs other := by
  intro r entry depth hfetch
  refine ⟨Machine.load_serving hfetch hreferences entry depth, fun m hload => ?_⟩
  have hown : ∀ found, m.image? image.name = some found →
      ∀ typeName, other.type? typeName = found.type? typeName := by
    intro found hfound typeName
    have hresolved := Machine.fetch_of_resolve (Machine.load_resolves hload hfound)
    rw [← Except.ok.inj (hfetch.symm.trans hresolved)]
    exact htypes typeName
  exact Machine.runsLike_of_types rfl (Machine.typeDecl_serving hown)

end Image

end TestBench
