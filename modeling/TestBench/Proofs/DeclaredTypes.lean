import Mathlib.Data.List.Nodup
import TestBench.Compile.Lowering

/-!
What it means that compilation succeeded. Without a fault no declaration was
left out, so the types of the unit are its classes in the order of the files,
every name is declared once, and the image consists of the lowered types. The
later modules start from these facts and do not look at the passes again.
-/
namespace TestBench.Compile

variable {α : Type}

/-- Of things with distinct names, each is found by its own. -/
theorem find?_key {key : α → String} {xs : List α} (h : (xs.map key).Nodup) {x : α} (hx : x ∈ xs) :
    xs.find? (key · == key x) = some x := by
  have hsome : (xs.find? (key · == key x)).isSome :=
    List.find?_isSome.2 ⟨x, hx, beq_self_eq_true _⟩
  obtain ⟨found, hfound⟩ := Option.isSome_iff_exists.1 hsome
  have hsame : key found = key x := by simpa using List.find?_some hfound
  rw [hfound, List.inj_on_of_nodup_map h (List.mem_of_find?_eq_some hfound) hx hsame]

/-- Things with distinct names are found the same in any order. -/
theorem find?_perm {key : α → String} {xs ys : List α} (h : (xs.map key).Nodup)
    (hperm : xs.Perm ys) (name : String) : xs.find? (key · == name) = ys.find? (key · == name) := by
  cases hfind : xs.find? (key · == name) with
  | some x =>
    have hname : key x = name := by simpa using List.find?_some hfind
    subst hname
    have hx : x ∈ ys := hperm.subset (List.mem_of_find?_eq_some hfind)
    exact (find?_key ((hperm.map key).nodup_iff.1 h) hx).symm
  | none =>
    symm
    rw [List.find?_eq_none] at hfind ⊢
    exact fun y hy => hfind y (hperm.symm.subset hy)

theorem distinct_eq (what : Declared) (name : α → Spanned String) (seen : List String)
    (xs : List α) (h : (distinct what name seen xs).2 = []) :
    (distinct what name seen xs).1 = xs := by
  induction xs generalizing seen with
  | nil => rfl
  | cons x rest ih =>
    unfold distinct at h ⊢
    split at h
    · simp at h
    · next hx =>
      rw [if_neg hx]
      exact congrArg (x :: ·) (ih _ h)

theorem distinct_nodup (what : Declared) (name : α → Spanned String) (seen : List String)
    (xs : List α) (h : (distinct what name seen xs).2 = []) :
    (xs.map fun x => (name x).node).Nodup ∧ ∀ x ∈ xs, (name x).node ∉ seen := by
  induction xs generalizing seen with
  | nil => simp
  | cons x rest ih =>
    unfold distinct at h
    split at h
    · simp at h
    · next hx =>
      obtain ⟨hnodup, hfresh⟩ := ih _ h
      have hx' : (name x).node ∉ seen := by simpa using hx
      refine ⟨?_, ?_⟩
      · rw [List.map_cons, List.nodup_cons]
        refine ⟨?_, hnodup⟩
        intro hmem
        obtain ⟨y, hy, heq⟩ := List.mem_map.1 hmem
        exact hfresh y hy (heq ▸ List.mem_cons_self)
      · intro y hy
        rcases List.mem_cons.1 hy with rfl | hy
        · exact hx'
        · exact fun hmem => hfresh y hy (List.mem_cons_of_mem _ hmem)

namespace OwnType

variable {origin : ParsedFile} {c : Source.ClassDecl}

@[simp] theorem ofClass_decl : (ofClass origin c).1.decl = c := rfl

theorem ofClass_fields (h : (ofClass origin c).2 = []) :
    (ofClass origin c).1.fields = c.fields.map (·.name) := by
  have hfields : (distinct .field (fun f : Source.Field => ⟨f.name, f.span⟩) [] c.fields).2 = [] :=
    (List.append_eq_nil_iff.1 h).1
  exact congrArg (List.map (·.name)) (distinct_eq _ _ _ _ hfields)

theorem ofClass_methods (h : (ofClass origin c).2 = []) :
    (ofClass origin c).1.methods = c.methods.map fun m => (m.name.node, m.parameters.length) := by
  have hmethods : (distinct .method Source.Method.name [] c.methods).2 = [] :=
    (List.append_eq_nil_iff.1 h).2
  exact congrArg (List.map _) (distinct_eq _ _ _ _ hmethods)

theorem field_names_nodup (h : (ofClass origin c).2 = []) :
    (c.fields.map (·.name)).Nodup :=
  (distinct_nodup _ _ _ _ (List.append_eq_nil_iff.1 h).1).1

theorem method_names_nodup (h : (ofClass origin c).2 = []) :
    (c.methods.map (·.name.node)).Nodup :=
  (distinct_nodup _ _ _ _ (List.append_eq_nil_iff.1 h).2).1

/-- The arity of a method by its name is that of its declaration. -/
theorem ofClass_arity? (h : (ofClass origin c).2 = []) (name : String) :
    (ofClass origin c).1.arity? name =
      (c.methods.find? (·.name.node == name)).map (·.parameters.length) := by
  rw [arity?, ofClass_methods h, List.find?_map, Option.map_map]
  rfl

end OwnType

/-- The types that the classes of the files declare, repetitions included. -/
def declaredTypes (files : List ParsedFile) : List OwnType :=
  files.flatMap fun f => f.program.classes.map fun c => (OwnType.ofClass f c).1

theorem mem_declaredTypes {files : List ParsedFile} {t : OwnType} :
    t ∈ declaredTypes files ↔
      ∃ f ∈ files, ∃ c ∈ f.program.classes, (OwnType.ofClass f c).1 = t := by
  simp [declaredTypes]

/-- Without a fault the first class of a file is new, and its type goes before the others. -/
theorem ownTypesFrom_cons {origin : ParsedFile} {known : List OwnType} {c : Source.ClassDecl}
    {rest : List Source.ClassDecl} (h : (ownTypesFrom origin known (c :: rest)).2 = []) :
    (∀ t ∈ known, t.fullName ≠ origin.program.fullName c.name.node) ∧
      (OwnType.ofClass origin c).2 = [] ∧
      (ownTypesFrom origin (known ++ [(OwnType.ofClass origin c).1]) rest).2 = [] ∧
      (ownTypesFrom origin known (c :: rest)).1 =
        (ownTypesFrom origin (known ++ [(OwnType.ofClass origin c).1]) rest).1 := by
  by_cases hc : known.any (·.fullName == origin.program.fullName c.name.node) = true
  · rw [ownTypesFrom] at h
    simp only [hc, if_true] at h
    cases h
  · have hstep : ownTypesFrom origin known (c :: rest) =
        ((ownTypesFrom origin (known ++ [(OwnType.ofClass origin c).1]) rest).1,
          (OwnType.ofClass origin c).2 ++
            (ownTypesFrom origin (known ++ [(OwnType.ofClass origin c).1]) rest).2) := by
      rw [ownTypesFrom]
      simp only [hc]
      rfl
    rw [hstep] at h ⊢
    obtain ⟨hhere, hlater⟩ := List.append_eq_nil_iff.1 h
    refine ⟨?_, hhere, hlater, rfl⟩
    intro t ht heq
    exact hc (List.any_eq_true.2 ⟨t, ht, by simpa using heq⟩)

theorem ownTypesFrom_eq (origin : ParsedFile) (known : List OwnType)
    (classes : List Source.ClassDecl) (h : (ownTypesFrom origin known classes).2 = []) :
    (ownTypesFrom origin known classes).1 =
        known ++ classes.map (fun c => (OwnType.ofClass origin c).1) ∧
      ∀ c ∈ classes, (OwnType.ofClass origin c).2 = [] := by
  induction classes generalizing known with
  | nil => simp [ownTypesFrom]
  | cons c rest ih =>
    obtain ⟨_, hhere, hlater, heq⟩ := ownTypesFrom_cons h
    obtain ⟨htypes, hmembers⟩ := ih _ hlater
    refine ⟨by simp [heq, htypes], ?_⟩
    intro d hd
    rcases List.mem_cons.1 hd with rfl | hd
    · exact hhere
    · exact hmembers d hd

theorem ownTypesFrom_nodup (origin : ParsedFile) (known : List OwnType)
    (classes : List Source.ClassDecl) (h : (ownTypesFrom origin known classes).2 = [])
    (hknown : (known.map (·.fullName)).Nodup) :
    ((ownTypesFrom origin known classes).1.map (·.fullName)).Nodup := by
  induction classes generalizing known with
  | nil => simpa [ownTypesFrom] using hknown
  | cons c rest ih =>
    obtain ⟨hnew, _, hlater, heq⟩ := ownTypesFrom_cons h
    rw [heq]
    refine ih _ hlater ?_
    rw [List.map_append, List.map_singleton, List.nodup_append]
    refine ⟨hknown, List.nodup_singleton _, ?_⟩
    intro name hname other hother hsame
    obtain ⟨t, ht, rfl⟩ := List.mem_map.1 hname
    rw [List.mem_singleton.1 hother] at hsame
    exact hnew t ht hsame

theorem ownTypes_eq (known : List OwnType) (files : List ParsedFile)
    (h : (ownTypes known files).2 = []) :
    (ownTypes known files).1 = known ++ declaredTypes files ∧
      ∀ f ∈ files, ∀ c ∈ f.program.classes, (OwnType.ofClass f c).2 = [] := by
  induction files generalizing known with
  | nil => simp [ownTypes, declaredTypes]
  | cons f rest ih =>
    obtain ⟨hhere, hlater⟩ := List.append_eq_nil_iff.1 (show _ ++ _ = [] from h)
    obtain ⟨hfrom, hmembers⟩ := ownTypesFrom_eq f known _ (List.map_eq_nil_iff.1 hhere)
    obtain ⟨hrest, hothers⟩ := ih _ hlater
    refine ⟨?_, ?_⟩
    · change (ownTypes (ownTypesFrom f known f.program.classes).1 rest).1 = _
      rw [hrest, hfrom, declaredTypes, declaredTypes, List.flatMap_cons, List.append_assoc]
    · intro g hg
      rcases List.mem_cons.1 hg with rfl | hg
      · exact hmembers
      · exact hothers g hg

theorem ownTypes_nodup (known : List OwnType) (files : List ParsedFile)
    (h : (ownTypes known files).2 = []) (hknown : (known.map (·.fullName)).Nodup) :
    ((ownTypes known files).1.map (·.fullName)).Nodup := by
  induction files generalizing known with
  | nil => exact hknown
  | cons f rest ih =>
    obtain ⟨hhere, hlater⟩ := List.append_eq_nil_iff.1 (show _ ++ _ = [] from h)
    exact ih _ hlater (ownTypesFrom_nodup f known _ (List.map_eq_nil_iff.1 hhere) hknown)

theorem mem_withoutRepeats {names : List String} {name : String} :
    name ∈ withoutRepeats names ↔ name ∈ names := by
  induction names with
  | nil => rfl
  | cons first rest ih =>
    by_cases heq : name = first <;> simp [withoutRepeats, ih, heq]

theorem withoutRepeats_nodup (names : List String) : (withoutRepeats names).Nodup := by
  induction names with
  | nil => exact List.nodup_nil
  | cons name rest ih =>
    rw [withoutRepeats, List.nodup_cons]
    exact ⟨by simp, ih.filter _⟩

/-- The scope of files in which every type is declared once. -/
def Scope.ofFiles (unitName : String) (files : List ParsedFile) (interfaces : List Image) : Scope :=
  ⟨unitName, declaredTypes files, interfaces⟩

/-- What has been checked of files whose compilation gave an image, and what
the image is made of. -/
structure Accepted (unitName : String) (references : List String) (files : List ParsedFile)
    (interfaces : List Image) (image : Image) : Prop where
  types_nodup : ((declaredTypes files).map (·.fullName)).Nodup
  members : ∀ f ∈ files, ∀ c ∈ f.program.classes, (OwnType.ofClass f c).2 = []
  bodies : ∀ t ∈ declaredTypes files,
    (lowerType (.ofFiles unitName files interfaces) t).2 = []
  scope_types : (ownTypes [] files).1 = declaredTypes files
  image_eq : image = ⟨unitName, withoutRepeats references,
    (declaredTypes files).map fun t => (lowerType (.ofFiles unitName files interfaces) t).1⟩

theorem accepted_of_lowerFiles {unitName : String} {references : List String}
    {files : List ParsedFile} {interfaces : List Image} {image : Image}
    (h : lowerFiles unitName references files interfaces = .ok image) :
    Accepted unitName references files interfaces image := by
  unfold lowerFiles at h
  simp only at h
  split at h
  · next hfaults =>
    obtain ⟨hdeclared, hbodies⟩ := List.append_eq_nil_iff.1 hfaults
    obtain ⟨htypes, hmembers⟩ := ownTypes_eq [] files hdeclared
    have hnodup := ownTypes_nodup [] files hdeclared List.nodup_nil
    rw [htypes, List.nil_append] at hnodup hbodies h
    refine ⟨hnodup, hmembers, ?_, htypes, ?_⟩
    · intro t ht
      rw [List.flatMap_eq_nil_iff] at hbodies
      have hfaults := hbodies _ (List.mem_map_of_mem ht)
      exact List.map_eq_nil_iff.1 hfaults
    · rw [← Except.ok.inj h, List.map_map]
      rfl
  · cases h

/-- Compilation succeeds only on files that parse, and only without faults. -/
theorem accepted_of_compile {u : SourceUnit} {interfaces : List Image} {image : Image}
    (h : compile u interfaces = .ok image) :
    ∃ files, u.parse = .ok files ∧
      Accepted u.name (u.references.map Reference.name) files interfaces image := by
  unfold compile at h
  split at h
  · cases h
  · next files hfiles => exact ⟨files, hfiles, accepted_of_lowerFiles h⟩

end TestBench.Compile
