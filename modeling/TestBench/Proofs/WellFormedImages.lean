import TestBench.Proofs.LoweredCode

/-!
The images that compilation gives. Declarations come from files in which every
name is declared once, and code from bodies without faults, so an image is well
formed as a whole: its names are distinct, its code stays inside its slots and
fields, and its calls agree with the methods that they name, in this image or in
one of the interfaces.
-/
namespace TestBench

namespace Image

/-- A call of another type is to this image or else one of the interfaces, which has the method
with as many parameters. -/
def Reaches (interfaces : List Image) (image : Image) (target : Code.Target) (count : Nat) : Prop :=
  target.unit = image.name ∧ image.Declares target.typeName target.method count ∨
    target.unit ≠ image.name ∧
      ∃ i ∈ interfaces, i.name = target.unit ∧ i.Declares target.typeName target.method count

structure WellFormed (interfaces : List Image) (image : Image) : Prop where
  types_nodup : (image.types.map (·.fullName)).Nodup
  references_nodup : image.references.Nodup
  fields_nodup : ∀ t ∈ image.types, (t.fields.map (·.name)).Nodup
  methods_nodup : ∀ t ∈ image.types, (t.methods.map (·.name)).Nodup
  code : ∀ t ∈ image.types, t.WellFormed (image.Reaches interfaces)

theorem WellFormed.reaches {interfaces : List Image} {image : Image}
    (h : image.WellFormed interfaces) :
    ∀ call ∈ image.staticCalls, image.Reaches interfaces call.1 call.2 := by
  intro call hcall
  obtain ⟨t, ht, hcall⟩ := List.mem_flatMap.1 hcall
  exact (h.code t ht).static call hcall

end Image

namespace Compile

open Source (declaredIn)

/-- The parameters of a method have the first slots, and each variable that it
declares the next one; no two of them share a name. -/
structure OwnSlots (m : Source.Method) (lowered : Image.Method) : Prop where
  names_nodup : (m.parameters.map (·.node) ++ declaredIn m.body).Nodup
  arity_eq : lowered.arity = m.parameters.length
  locals_eq : lowered.locals = m.parameters.length + (declaredIn m.body).length
  slots_eq : slotsIn m.body lowered.body = (declaredIn m.body).zipIdx m.parameters.length

namespace Site

variable {site : Site}

theorem method_locals {m : Source.Method} (h : (site.method m).2 = []) :
    (site.block (m.parameters.map (·.node)) m.body).locals =
      m.parameters.map (·.node) ++ declaredIn m.body :=
  block_locals _ _ (List.append_eq_nil_iff.1 h).2

theorem parameters_nodup {m : Source.Method} (h : (site.method m).2 = []) :
    (m.parameters.map (·.node)).Nodup :=
  (distinct_nodup _ id _ _ (List.append_eq_nil_iff.1 h).1).1

theorem method_nodup {m : Source.Method} (h : (site.method m).2 = []) :
    (m.parameters.map (·.node) ++ declaredIn m.body).Nodup := by
  rw [← method_locals h]
  exact block_nodup _ _ (List.append_eq_nil_iff.1 h).2 (parameters_nodup h)

theorem method_locals_eq {m : Source.Method} (h : (site.method m).2 = []) :
    (site.method m).1.locals = m.parameters.length + (declaredIn m.body).length := by
  have hlength := congrArg List.length (method_locals h)
  rwa [List.length_append, List.length_map] at hlength

theorem method_ownSlots {m : Source.Method} (h : (site.method m).2 = []) :
    OwnSlots m (site.method m).1 where
  names_nodup := method_nodup h
  arity_eq := rfl
  locals_eq := method_locals_eq h
  slots_eq := by
    have hslots := block_slots _ m.body (List.append_eq_nil_iff.1 h).2
    rwa [List.length_map] at hslots

theorem method_meets {m : Source.Method} (h : (site.method m).2 = []) :
    Code.StmtsMeet (site.condition (site.method m).1.locals) (site.method m).1.body :=
  block_meets _ m.body (List.append_eq_nil_iff.1 h).2 (Nat.le_refl _)

end Site

/-- Where the bodies of a type are lowered. -/
def OwnType.site (t : OwnType) (scope : Scope) : Site := ⟨scope, t.origin.program, t⟩

theorem lowerType_eq (scope : Scope) (t : OwnType) :
    (lowerType scope t).1 = ⟨t.fullName, Source.attributeNames t.decl.attributes,
      t.decl.fields.map fun f => ((t.site scope).field f).1,
      t.decl.methods.map fun m => ((t.site scope).method m).1⟩ := by
  simp [lowerType, OwnType.site, Function.comp_def]

theorem lowerType_faults {scope : Scope} {t : OwnType} (h : (lowerType scope t).2 = []) :
    (∀ f ∈ t.decl.fields, ((t.site scope).field f).2 = []) ∧
      ∀ m ∈ t.decl.methods, ((t.site scope).method m).2 = [] := by
  obtain ⟨hfields, hmethods⟩ := List.append_eq_nil_iff.1 h
  rw [List.flatMap_eq_nil_iff] at hfields hmethods
  exact ⟨fun f hf => hfields _ (List.mem_map_of_mem hf),
    fun m hm => hmethods _ (List.mem_map_of_mem hm)⟩

theorem lowerType_method? (scope : Scope) (t : OwnType) (name : String) :
    (lowerType scope t).1.method? name =
      (t.decl.methods.find? (·.name.node == name)).map fun m => ((t.site scope).method m).1 := by
  rw [lowerType_eq, Image.TypeDecl.method?, List.find?_map]
  rfl

namespace Accepted

variable {unitName : String} {references : List String} {files : List ParsedFile}
  {interfaces : List Image} {image : Image}

variable (h : Accepted unitName references files interfaces image)

include h

theorem name_eq : image.name = unitName := by rw [h.image_eq]

theorem types_eq : image.types =
    (declaredTypes files).map fun t => (lowerType (.ofFiles unitName files interfaces) t).1 := by
  rw [h.image_eq]

theorem type?_eq (fullName : String) : image.type? fullName =
    ((declaredTypes files).find? (·.fullName == fullName)).map fun t =>
      (lowerType (.ofFiles unitName files interfaces) t).1 := by
  rw [Image.type?, h.types_eq, List.find?_map]
  rfl

theorem find?_fullName {t : OwnType} (ht : t ∈ declaredTypes files) :
    (declaredTypes files).find? (·.fullName == t.fullName) = some t :=
  find?_key h.types_nodup ht

theorem ofClass_faults {t : OwnType} (ht : t ∈ declaredTypes files) :
    (OwnType.ofClass t.origin t.decl).2 = [] ∧ (OwnType.ofClass t.origin t.decl).1 = t := by
  obtain ⟨f, hf, c, hc, rfl⟩ := mem_declaredTypes.1 ht
  exact ⟨h.members f hf c hc, rfl⟩

theorem fields_eq {t : OwnType} (ht : t ∈ declaredTypes files) :
    t.fields = t.decl.fields.map (·.name) := by
  obtain ⟨hfaults, heq⟩ := h.ofClass_faults ht
  rw [← OwnType.ofClass_fields hfaults, heq]

/-- The arity that callers were checked against is that of the lowered method. -/
theorem arity?_eq {t : OwnType} (ht : t ∈ declaredTypes files) (name : String) :
    t.arity? name =
      ((lowerType (.ofFiles unitName files interfaces) t).1.method? name).map (·.arity) := by
  obtain ⟨hfaults, heq⟩ := h.ofClass_faults ht
  have harity := OwnType.ofClass_arity? hfaults name
  rw [heq] at harity
  rw [harity, lowerType_method?, Option.map_map]
  rfl

/-- What the scope says of a method of another type holds of this image or of
an interface. -/
theorem reaches {target : Code.Target} {count : Nat}
    (ha : (Scope.ofFiles unitName files interfaces).arity? target.unit target.typeName
      target.method = some count) : image.Reaches interfaces target count := by
  unfold Scope.arity? at ha
  split at ha
  · next hunit =>
    obtain ⟨t, ht, harity⟩ := Option.bind_eq_some_iff.1 ha
    rw [h.arity?_eq (List.mem_of_find?_eq_some ht)] at harity
    obtain ⟨m, hm, hcount⟩ := Option.map_eq_some_iff.1 harity
    have htype := h.type?_eq target.typeName
    rw [show (declaredTypes files).find? (·.fullName == target.typeName) = some t from ht] at htype
    exact Or.inl ⟨hunit.trans h.name_eq.symm, _, htype, m, hm, hcount⟩
  · next hunit =>
    obtain ⟨i, hi, hrest⟩ := Option.bind_eq_some_iff.1 ha
    obtain ⟨t, ht, hrest⟩ := Option.bind_eq_some_iff.1 hrest
    obtain ⟨m, hm, hcount⟩ := Option.bind_eq_some_iff.1 hrest
    have hname : i.name = target.unit := by simpa using List.find?_some hi
    exact Or.inr ⟨fun heq => hunit (heq.trans h.name_eq), i, List.mem_of_find?_eq_some hi, hname,
      t, ht, m, hm, Option.some.inj hcount⟩

/-- Lowered code meets what its type in the image asks. -/
theorem condition_weaker {t : OwnType} (ht : t ∈ declaredTypes files) (slots : Nat) :
    ((lowerType (.ofFiles unitName files interfaces) t).1.condition
        (image.Reaches interfaces) slots).Weaker
      ((t.site (.ofFiles unitName files interfaces)).condition slots) where
  slot _ hn := hn
  field n hn := by
    change n < t.fields.length at hn
    change n < (lowerType (.ofFiles unitName files interfaces) t).1.fields.length
    rw [h.fields_eq ht, List.length_map] at hn
    rw [lowerType_eq, List.length_map]
    exact hn
  sibling name count hn := by
    change t.arity? name = some count at hn
    rw [h.arity?_eq ht] at hn
    obtain ⟨m, hm, hcount⟩ := Option.map_eq_some_iff.1 hn
    exact ⟨m, hm, hcount⟩
  static target count hn := h.reaches hn
  assertion _ _ hn := hn

theorem type_wellFormed {t : OwnType} (ht : t ∈ declaredTypes files) :
    (lowerType (.ofFiles unitName files interfaces) t).1.WellFormed (image.Reaches interfaces) := by
  obtain ⟨hfields, hmethods⟩ := lowerType_faults (h.bodies t ht)
  refine ⟨?_, ?_, ?_⟩
  · intro f hf
    rw [lowerType_eq] at hf
    obtain ⟨field, hfield, rfl⟩ := List.mem_map.1 hf
    exact Code.Expr.Meets.weaken (h.condition_weaker ht 0) _
      (Site.expr_meets (Nat.le_refl _) field.value (hfields field hfield))
  · intro m hm
    rw [lowerType_eq] at hm
    obtain ⟨method, hmethod, rfl⟩ := List.mem_map.1 hm
    rw [Site.method_locals_eq (hmethods method hmethod)]
    exact Nat.le_add_right _ _
  · intro m hm
    rw [lowerType_eq] at hm
    obtain ⟨method, hmethod, rfl⟩ := List.mem_map.1 hm
    exact Code.StmtsMeet.weaken (h.condition_weaker ht _) _
      (Site.method_meets (hmethods method hmethod))

theorem image_wellFormed : image.WellFormed interfaces := by
  have hclass : ∀ t ∈ declaredTypes files, (OwnType.ofClass t.origin t.decl).2 = [] :=
    fun t ht => (h.ofClass_faults ht).1
  refine ⟨?_, ?_, ?_, ?_, ?_⟩
  · rw [h.types_eq, List.map_map]
    exact h.types_nodup
  · rw [h.image_eq]
    exact withoutRepeats_nodup _
  · intro t ht
    rw [h.types_eq] at ht
    obtain ⟨own, hown, rfl⟩ := List.mem_map.1 ht
    rw [lowerType_eq, List.map_map]
    exact OwnType.field_names_nodup (hclass own hown)
  · intro t ht
    rw [h.types_eq] at ht
    obtain ⟨own, hown, rfl⟩ := List.mem_map.1 ht
    rw [lowerType_eq, List.map_map]
    exact OwnType.method_names_nodup (hclass own hown)
  · intro t ht
    rw [h.types_eq] at ht
    obtain ⟨own, hown, rfl⟩ := List.mem_map.1 ht
    exact h.type_wellFormed hown

/-- The classes of the files and the types of the image correspond in order, and
so do their methods. -/
theorem methods_ownSlots : List.Forall₂ (fun c t => List.Forall₂ OwnSlots c.methods t.methods)
    (files.flatMap (·.program.classes)) image.types := by
  have hdecl : files.flatMap (·.program.classes) = (declaredTypes files).map (·.decl) := by
    simp [declaredTypes, List.map_flatMap, Function.comp_def]
  rw [hdecl, h.types_eq, List.forall₂_map_left_iff, List.forall₂_map_right_iff, List.forall₂_same]
  intro t ht
  rw [lowerType_eq, List.forall₂_map_right_iff, List.forall₂_same]
  intro m hm
  exact Site.method_ownSlots ((lowerType_faults (h.bodies t ht)).2 m hm)

end Accepted

end Compile

/-- Every image that compilation gives is well formed, and the variables and
parameters of every method have slots of their own. -/
theorem compile_wellFormed {u : SourceUnit} {interfaces : List Image} {image : Image}
    (h : compile u interfaces = .ok image) :
    image.WellFormed interfaces ∧ ∀ files, u.parse = .ok files →
      List.Forall₂ (fun c t => List.Forall₂ Compile.OwnSlots c.methods t.methods)
        (files.flatMap (·.program.classes)) image.types := by
  obtain ⟨files, hfiles, haccepted⟩ := Compile.accepted_of_compile h
  refine ⟨haccepted.image_wellFormed, ?_⟩
  intro other hother
  rw [hfiles] at hother
  exact Except.ok.inj hother ▸ haccepted.methods_ownSlots

/-- A class with a field, which a local variable of the same name hides from its declaration on,
and a call of another unit. -/
def shopUnit : SourceUnit :=
  .mk "Shop" [⟨"till.tdl", "class Till \x7b let all = 1; fn add(n) \x7b " ++
    "let all = Ledger.sum(all, n); return all; \x7d \x7d"⟩] [.binary "Books.tdi"]

def booksImage : Image :=
  ⟨"Books", [], [⟨"Ledger", [], [], [
    ⟨"sum", 2, 2, [], [.return (some (.binary (.local 0) .add (.local 1)))], 1⟩]⟩]⟩

theorem shopUnit_compiles : ∃ image, compile shopUnit [booksImage] = .ok image := by
  have hok : (compile shopUnit [booksImage]).isOk = true := by decide +kernel
  cases hcompile : compile shopUnit [booksImage] with
  | error diagnostics =>
    rw [hcompile] at hok
    cases hok
  | ok image => exact ⟨image, rfl⟩

theorem compile_wellFormed_shop : ∃ image, compile shopUnit [booksImage] = .ok image ∧
    image.WellFormed [booksImage] := by
  obtain ⟨image, hcompile⟩ := shopUnit_compiles
  exact ⟨image, hcompile, (compile_wellFormed hcompile).1⟩

end TestBench
