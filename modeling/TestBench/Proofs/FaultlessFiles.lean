import TestBench.Proofs.WellFormedImages

/-!
When files compile. Names that are distinct make no faults, so the declarations
are without fault exactly if the types of the unit, the members of each class and
the parameters of each method have distinct names. What then remains to be asked
is that the bodies are without fault in the scope of all declared types.
-/
namespace TestBench.Compile

variable {α : Type}

theorem distinct_faults_iff (what : Declared) (name : α → Spanned String) (seen : List String)
    (xs : List α) : (distinct what name seen xs).2 = [] ↔
      (xs.map fun x => (name x).node).Nodup ∧ ∀ x ∈ xs, (name x).node ∉ seen := by
  refine ⟨distinct_nodup what name seen xs, ?_⟩
  rintro ⟨hnodup, hfresh⟩
  induction xs generalizing seen with
  | nil => rfl
  | cons x rest ih =>
    obtain ⟨hx, hrest⟩ := List.forall_mem_cons.1 hfresh
    rw [List.map_cons, List.nodup_cons] at hnodup
    have hseen : ¬ seen.contains (name x).node = true := by simpa using hx
    have hlater : ∀ y ∈ rest, (name y).node ∉ (name x).node :: seen := by
      intro y hy hmem
      rcases List.mem_cons.1 hmem with heq | hmem
      · exact hnodup.1 (heq ▸ List.mem_map_of_mem hy)
      · exact hrest y hy hmem
    rw [distinct, if_neg hseen]
    exact ih _ hnodup.2 hlater

theorem OwnType.ofClass_faults_iff (origin : ParsedFile) (c : Source.ClassDecl) :
    (OwnType.ofClass origin c).2 = [] ↔
      (c.fields.map (·.name)).Nodup ∧ (c.methods.map (·.name.node)).Nodup := by
  have hfields := distinct_faults_iff .field (fun f : Source.Field => ⟨f.name, f.span⟩) [] c.fields
  have hmethods := distinct_faults_iff .method Source.Method.name [] c.methods
  have happend : (OwnType.ofClass origin c).2 =
      (distinct .field (fun f : Source.Field => ⟨f.name, f.span⟩) [] c.fields).2 ++
        (distinct .method Source.Method.name [] c.methods).2 := rfl
  rw [happend, List.append_eq_nil_iff, hfields, hmethods]
  simp

/-- Classes with new and distinct names whose members make no fault are all declared. -/
theorem ownTypesFrom_faultless (origin : ParsedFile) (known : List OwnType)
    (classes : List Source.ClassDecl) (hmembers : ∀ c ∈ classes, (OwnType.ofClass origin c).2 = [])
    (hnodup : ((known ++ classes.map fun c => (OwnType.ofClass origin c).1).map
      (·.fullName)).Nodup) : (ownTypesFrom origin known classes).2 = [] := by
  induction classes generalizing known with
  | nil => rfl
  | cons c rest ih =>
    obtain ⟨hc, hrest⟩ := List.forall_mem_cons.1 hmembers
    rw [List.map_cons, List.append_cons] at hnodup
    have hnew : ¬ known.any (·.fullName == origin.program.fullName c.name.node) = true := by
      intro hany
      obtain ⟨t, ht, hname⟩ := List.any_eq_true.1 hany
      rw [List.map_append, List.map_append, List.nodup_append] at hnodup
      obtain ⟨-, -, hapart⟩ := List.nodup_append.1 hnodup.1
      exact hapart _ (List.mem_map_of_mem ht) _ (List.mem_singleton_self _) (beq_iff_eq.1 hname)
    have hlater := ih (known ++ [(OwnType.ofClass origin c).1]) hrest hnodup
    rw [ownTypesFrom]
    simp only [hnew]
    exact List.append_eq_nil_iff.2 ⟨hc, hlater⟩

theorem ownTypes_faultless (known : List OwnType) (files : List ParsedFile)
    (hmembers : ∀ f ∈ files, ∀ c ∈ f.program.classes, (OwnType.ofClass f c).2 = [])
    (hnodup : ((known ++ declaredTypes files).map (·.fullName)).Nodup) :
    (ownTypes known files).2 = [] := by
  induction files generalizing known with
  | nil => rfl
  | cons f rest ih =>
    obtain ⟨hf, hrest⟩ := List.forall_mem_cons.1 hmembers
    rw [declaredTypes, List.flatMap_cons, ← List.append_assoc] at hnodup
    have hhere : (ownTypesFrom f known f.program.classes).2 = [] := by
      refine ownTypesFrom_faultless f known f.program.classes hf ?_
      rw [List.map_append] at hnodup
      exact (List.nodup_append.1 hnodup).1
    have hlater : (ownTypes (ownTypesFrom f known f.program.classes).1 rest).2 = [] := by
      rw [(ownTypesFrom_eq f known f.program.classes hhere).1]
      exact ih _ hrest hnodup
    exact List.append_eq_nil_iff.2 ⟨by rw [hhere, List.map_nil], hlater⟩

/-- What is asked of files so that they compile. -/
structure Faultless (unitName : String) (files : List ParsedFile) (interfaces : List Image) :
    Prop where
  types_nodup : ((declaredTypes files).map (·.fullName)).Nodup
  members : ∀ f ∈ files, ∀ c ∈ f.program.classes, (OwnType.ofClass f c).2 = []
  bodies : ∀ t ∈ declaredTypes files, (lowerType (.ofFiles unitName files interfaces) t).2 = []

/-- Files compile exactly if they are without fault, and then to the lowered form of all types. -/
theorem lowerFiles_eq_ok {unitName : String} {references : List String} {files : List ParsedFile}
    {interfaces : List Image} {image : Image} :
    lowerFiles unitName references files interfaces = .ok image ↔
      Faultless unitName files interfaces ∧ image = ⟨unitName, withoutRepeats references,
        (declaredTypes files).map fun t =>
          (lowerType (.ofFiles unitName files interfaces) t).1⟩ := by
  constructor
  · intro h
    have haccepted := accepted_of_lowerFiles h
    exact ⟨⟨haccepted.types_nodup, haccepted.members, haccepted.bodies⟩, haccepted.image_eq⟩
  · rintro ⟨h, rfl⟩
    have hdeclared : (ownTypes [] files).2 = [] :=
      ownTypes_faultless [] files h.members h.types_nodup
    have hown : ownTypes [] files = (declaredTypes files, []) :=
      Prod.ext (ownTypes_eq [] files hdeclared).1 hdeclared
    unfold lowerFiles
    rw [hown]
    simp only [List.nil_append]
    split
    · rw [List.map_map]
      rfl
    · next hfaults =>
      refine absurd ?_ hfaults
      rw [List.flatMap_eq_nil_iff]
      intro lowered hlowered
      obtain ⟨t, ht, rfl⟩ := List.mem_map.1 hlowered
      exact List.map_eq_nil_iff.2 (h.bodies t ht)

theorem compile_eq_ok {u : SourceUnit} {interfaces : List Image} {image : Image} :
    compile u interfaces = .ok image ↔ ∃ files, u.parse = .ok files ∧
      lowerFiles u.name (u.references.map Reference.name) files interfaces = .ok image := by
  unfold compile
  cases u.parse with
  | error diagnostics => simp
  | ok files => simp

end TestBench.Compile
