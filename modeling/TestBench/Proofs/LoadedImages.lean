import TestBench.Machine.Loading
import TestBench.Proofs.StateRuns

/-!
The images of a loaded machine. Whatever the queue of names still holds, every
reference of an image that is loaded is itself loaded or waits in the queue; so
once the queue is empty nothing that a loaded image refers to is missing, and
each image is the one that the resolver gives for its name.
-/
namespace TestBench.Machine

variable {r : Resolver} {loaded images : List (String × Image)} {queue : List String}

/-- Every reference of an image that is loaded is loaded too or waits in the queue. -/
def Covered (loaded : List (String × Image)) (queue : List String) : Prop :=
  ∀ e ∈ loaded, ∀ name ∈ e.2.references, name ∈ loaded.map (·.1) ∨ name ∈ queue

theorem mem_names {name : String} :
    name ∈ loaded.map (·.1) ↔ loaded.any (·.1 == name) = true := by
  simp

theorem Covered.skip {name : String} {rest : List String} (h : Covered loaded (name :: rest))
    (hname : name ∈ loaded.map (·.1)) : Covered loaded rest := by
  intro e he other hother
  rcases h e he other hother with hloaded | hqueue
  · exact Or.inl hloaded
  · rcases List.mem_cons.1 hqueue with rfl | hrest
    · exact Or.inl hname
    · exact Or.inr hrest

theorem Covered.add {name : String} {rest : List String} (h : Covered loaded (name :: rest))
    (image : Image) : Covered (loaded ++ [(name, image)]) (rest ++ image.references) := by
  intro e he other hother
  rw [List.map_append, List.mem_append, List.mem_append]
  rcases List.mem_append.1 he with he | he
  · rcases h e he other hother with hloaded | hqueue
    · exact Or.inl (Or.inl hloaded)
    · rcases List.mem_cons.1 hqueue with rfl | hrest
      · exact Or.inl (Or.inr List.mem_cons_self)
      · exact Or.inr (Or.inl hrest)
  · rw [List.mem_singleton.1 he] at hother
    exact Or.inr (Or.inr hother)

theorem loadQueue_covered (h : loadQueue r loaded queue = .ok images)
    (hcovered : Covered loaded queue) : Covered images [] := by
  fun_induction loadQueue r loaded queue with
  | case1 loaded =>
    obtain rfl := Except.ok.inj h
    exact hcovered
  | case2 loaded name rest hpresent ih => exact ih h (hcovered.skip (mem_names.2 hpresent))
  | case3 => cases h
  | case4 loaded name rest _ image _ ih => exact ih h (hcovered.add image)

theorem loadQueue_resolves (h : loadQueue r loaded queue = .ok images)
    (hloaded : ∀ e ∈ loaded, r.resolve e.1 = .ok e.2) : ∀ e ∈ images, r.resolve e.1 = .ok e.2 := by
  fun_induction loadQueue r loaded queue with
  | case1 loaded =>
    obtain rfl := Except.ok.inj h
    exact hloaded
  | case2 loaded name rest _ ih => exact ih h hloaded
  | case3 => cases h
  | case4 loaded name rest _ image hfound ih =>
    refine ih h fun e he => ?_
    rcases List.mem_append.1 he with he | he
    · exact hloaded e he
    · rw [List.mem_singleton.1 he]
      exact hfound

/-- Loading succeeds on names that are resolved to images with references among these names. -/
theorem loadQueue_succeeds {names : List String}
    (hnames : ∀ name ∈ names, ∃ image, r.resolve name = .ok image ∧ image.references ⊆ names)
    (hqueue : queue ⊆ names) : ∃ images, loadQueue r loaded queue = .ok images := by
  fun_induction loadQueue r loaded queue with
  | case1 loaded => exact ⟨loaded, rfl⟩
  | case2 loaded name rest _ ih => exact ih (List.cons_subset.1 hqueue).2
  | case3 loaded name rest _ fault hfault =>
    obtain ⟨image, himage, _⟩ := hnames name (List.cons_subset.1 hqueue).1
    cases hfault.symm.trans himage
  | case4 loaded name rest _ image himage ih =>
    obtain ⟨hname, hrest⟩ := List.cons_subset.1 hqueue
    obtain ⟨found, hfound, hreferences⟩ := hnames name hname
    obtain rfl := Except.ok.inj (hfound.symm.trans himage)
    exact ih (List.append_subset.2 ⟨hrest, hreferences⟩)

theorem load_succeeds {names : List String} {entry : String}
    (hnames : ∀ name ∈ names, ∃ image, r.resolve name = .ok image ∧ image.references ⊆ names)
    (hentry : entry ∈ names) (depth : Nat) : ∃ m, load entry r depth = .ok m := by
  have hloads : ∃ images, loadQueue r [] [entry] = .ok images :=
    loadQueue_succeeds hnames (List.cons_subset.2 ⟨hentry, List.nil_subset _⟩)
  obtain ⟨images, himages⟩ := hloads
  exact ⟨_, by rw [load, himages]⟩

section Loaded

variable {m : Machine} {entry : String} {depth : Nat}

theorem mem_of_image? {name : String} {image : Image} (h : m.image? name = some image) :
    (name, image) ∈ m.images := by
  obtain ⟨e, hfind, rfl⟩ := Option.map_eq_some_iff.1 h
  have hname : e.1 = name := by simpa using List.find?_some hfind
  exact hname ▸ List.mem_of_find?_eq_some hfind

theorem image?_of_mem {name : String} (h : name ∈ m.images.map (·.1)) :
    ∃ image, m.image? name = some image := by
  obtain ⟨e, he, hname⟩ := List.mem_map.1 h
  have hsome : (m.images.find? (·.1 == name)).isSome = true :=
    List.find?_isSome.2 ⟨e, he, by simpa using hname⟩
  obtain ⟨found, hfound⟩ := Option.isSome_iff_exists.1 hsome
  exact ⟨found.2, by rw [image?, hfound]; rfl⟩

theorem load_eq_ok (h : load entry r depth = .ok m) : loadQueue r [] [entry] = .ok m.images := by
  unfold load at h
  split at h
  · cases h
  · next images himages =>
    obtain rfl := Except.ok.inj h
    exact himages

theorem load_resolves (h : load entry r depth = .ok m) {name : String} {image : Image}
    (himage : m.image? name = some image) : r.resolve name = .ok image :=
  loadQueue_resolves (load_eq_ok h) (fun _ he => by cases he) _ (mem_of_image? himage)

/-- A machine has loaded whatever the images that it has loaded refer to. -/
theorem load_closed (h : load entry r depth = .ok m) {name : String} {image : Image}
    (himage : m.image? name = some image) {reference : String}
    (hreference : reference ∈ image.references) : ∃ other, m.image? reference = some other := by
  have hcovered := loadQueue_covered (load_eq_ok h) fun _ he => by cases he
  rcases hcovered _ (mem_of_image? himage) _ hreference with hloaded | hqueue
  · exact image?_of_mem hloaded
  · cases hqueue

end Loaded

end TestBench.Machine
