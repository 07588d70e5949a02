import TestBench.Proofs.CompiledMeaning
import TestBench.Proofs.LoweredForms
import TestBench.Proofs.Mentions

/-!
Which units compile. A unit that parses compiles exactly if its types, the
members of its classes and the parameters and variables of its methods have
distinct names and its code mentions only what is known to it: parameters and
variables declared before, fields, and callees that take the given number of
arguments. What a callee means is said here in terms of the classes and the
interfaces alone. The arguments of attributes are no code and may mention
anything.
-/
namespace TestBench

namespace Compile

open Source (Mention mentionsIn declaredIn)

/-- A type that a name may stand for. -/
inductive KnownType where
  | own (c : Direct.Class)
  | foreign (t : Image.TypeDecl)

/-- The number of arguments that a method of the type takes. -/
def KnownType.arity? : KnownType → String → Option Nat
  | .own c, method => (c.method? method).map (·.parameters.length)
  | .foreign t, method => (t.method? method).map (·.arity)

/-- The classes of a unit and the interfaces that it is compiled against. -/
structure Surroundings where
  classes : List Direct.Class
  interfaces : List Image

namespace Surroundings

def ofFiles (files : List ParsedFile) (interfaces : List Image) : Surroundings :=
  ⟨files.flatMap fun f => f.program.classes.map (⟨f.program, ·⟩), interfaces⟩

variable (s : Surroundings)

/-- The type of a full name: a class of the unit, or else the type of the first interface that has
one. -/
def typeNamed? (fullName : String) : Option KnownType :=
  match s.classes.find? (·.fullName == fullName) with
  | some c => some (.own c)
  | none => (s.interfaces.findSome? (·.type? fullName)).map .foreign

/-- The type that a name in a file stands for: as it is written, else in the namespace of the file,
else in the first that the file uses. -/
def typeSeen? (p : Source.Program) (written : String) : Option KnownType :=
  let within (space : Spanned QualifiedName) := s.typeNamed? (space.node.written ++ "." ++ written)
  (s.typeNamed? written).or ((p.space.bind within).or (p.uses.findSome? within))

/-- How many arguments a callee takes in a class: as a method of the class, else as a builtin, else
as a method of the type before its last dot. -/
def takes? (c : Direct.Class) (callee : QualifiedName) : Option Nat :=
  match if callee.isSimple then c.method? callee.last else none with
  | some m => some m.parameters.length
  | none =>
    match Builtin.ofSpelling? callee.written with
    | some b => some b.arity
    | none => callee.qualifier?.bind fun qualifier =>
      (s.typeSeen? c.program qualifier.written).bind (·.arity? callee.last)

/-- What is mentioned in a class is known there. -/
def Meets (c : Direct.Class) : Mention → Prop
  | .name known name => name ∈ known ∨ name ∈ c.decl.fields.map (·.name)
  | .call callee count => s.takes? c callee = some count

/-- A class whose names are distinct and whose code mentions what is known. -/
structure ClassScoped (c : Direct.Class) : Prop where
  fields_nodup : (c.decl.fields.map (·.name)).Nodup
  methods_nodup : (c.decl.methods.map (·.name.node)).Nodup
  inits : ∀ f ∈ c.decl.fields, ∀ m ∈ f.value.mentions [], s.Meets c m
  locals_nodup : ∀ m ∈ c.decl.methods, (m.parameters.map (·.node) ++ declaredIn m.body).Nodup
  bodies : ∀ m ∈ c.decl.methods, ∀ mention ∈ mentionsIn (m.parameters.map (·.node)) m.body,
    s.Meets c mention

structure WellScoped : Prop where
  types_nodup : (s.classes.map (·.fullName)).Nodup
  classes : ∀ c ∈ s.classes, s.ClassScoped c

instance (c : Direct.Class) : (m : Mention) → Decidable (s.Meets c m)
  | .name .. => inferInstanceAs (Decidable (_ ∨ _))
  | .call .. => inferInstanceAs (Decidable (_ = _))

instance (c : Direct.Class) : Decidable (s.ClassScoped c) :=
  decidable_of_iff ((c.decl.fields.map (·.name)).Nodup ∧ (c.decl.methods.map (·.name.node)).Nodup ∧
    (∀ f ∈ c.decl.fields, ∀ m ∈ f.value.mentions [], s.Meets c m) ∧
    (∀ m ∈ c.decl.methods, (m.parameters.map (·.node) ++ declaredIn m.body).Nodup) ∧
    ∀ m ∈ c.decl.methods, ∀ mention ∈ mentionsIn (m.parameters.map (·.node)) m.body,
      s.Meets c mention)
    ⟨fun ⟨fields, methods, inits, locals, bodies⟩ => ⟨fields, methods, inits, locals, bodies⟩,
      fun h => ⟨h.fields_nodup, h.methods_nodup, h.inits, h.locals_nodup, h.bodies⟩⟩

instance : Decidable s.WellScoped :=
  decidable_of_iff ((s.classes.map (·.fullName)).Nodup ∧ ∀ c ∈ s.classes, s.ClassScoped c)
    ⟨fun ⟨types, classes⟩ => ⟨types, classes⟩, fun h => ⟨h.types_nodup, h.classes⟩⟩

variable {s}

theorem typeSeen?_eq (p : Source.Program) (written : String) :
    s.typeSeen? p written = (Scope.candidates p written).findSome? s.typeNamed? := by
  rw [typeSeen?, Scope.candidates, List.findSome?_cons, List.findSome?_map, List.findSome?_append]
  cases s.typeNamed? written with
  | some t => rfl
  | none =>
    cases hspace : p.space with
    | none => rfl
    | some space => simp [Function.comp_def]

end Surroundings

theorem findSome?_eq_bind {α β : Type} (f : α → Option β) (xs : List α) :
    xs.findSome? f = (xs.find? fun x => (f x).isSome).bind f := by
  induction xs with
  | nil => rfl
  | cons x rest ih =>
    cases hx : f x with
    | none => rw [List.findSome?_cons, List.find?_cons, hx, ih]; rfl
    | some y => rw [List.findSome?_cons, List.find?_cons, hx]; exact hx.symm

section Files

variable {unitName : String} {files : List ParsedFile} {interfaces : List Image}

theorem classes_eq : (Surroundings.ofFiles files interfaces).classes =
    (declaredTypes files).map OwnType.declaring := by
  simp only [Surroundings.ofFiles, declaredTypes, List.map_flatMap, List.map_map]
  rfl

theorem find?_classes (interfaces : List Image) (fullName : String) :
    (Surroundings.ofFiles files interfaces).classes.find? (·.fullName == fullName) =
      ((declaredTypes files).find? (·.fullName == fullName)).map OwnType.declaring := by
  have hnames : ∀ t ∈ declaredTypes files,
      (t.declaring.fullName == fullName) = (t.fullName == fullName) :=
    fun t ht => by rw [Accepted.declaring_fullName ht]
  rw [classes_eq, List.find?_map, Function.comp_def, List.find?_congr hnames]

theorem arity?_declaring {t : OwnType} (ht : t ∈ declaredTypes files)
    (hmembers : ∀ f ∈ files, ∀ c ∈ f.program.classes, (OwnType.ofClass f c).2 = [])
    (method : String) :
    t.arity? method = (t.declaring.method? method).map (·.parameters.length) := by
  obtain ⟨f, hf, c, hc, rfl⟩ := mem_declaredTypes.1 ht
  exact OwnType.ofClass_arity? (hmembers f hf c hc) method

theorem arity?_own (fullName method : String) :
    (Scope.ofFiles unitName files interfaces).arity? unitName fullName method =
      ((declaredTypes files).find? (·.fullName == fullName)).bind (·.arity? method) :=
  if_pos rfl

theorem arity?_foreign {unit : String} (hunit : unit ≠ unitName) (fullName method : String) :
    (Scope.ofFiles unitName files interfaces).arity? unit fullName method =
      (interfaces.find? (·.name == unit)).bind fun i => (i.type? fullName).bind fun t =>
        (t.method? method).map (·.arity) := by
  have hother : (Scope.ofFiles unitName files interfaces).arity? unit fullName method =
      (interfaces.find? (·.name == unit)).bind fun i => (i.type? fullName).bind fun t =>
        (t.method? method).bind fun m => some m.arity := if_neg hunit
  simpa only [Option.map_eq_bind, Function.comp_def] using hother

/-- The home of a type of the unit is the unit itself. -/
theorem home?_own (unitName : String) (interfaces : List Image) {fullName : String} {t : OwnType}
    (hfind : (declaredTypes files).find? (·.fullName == fullName) = some t) :
    (Scope.ofFiles unitName files interfaces).home? fullName = some unitName ∧
      (Surroundings.ofFiles files interfaces).typeNamed? fullName = some (.own t.declaring) := by
  have hname : (t.fullName == fullName) = true := by simpa using List.find?_some hfind
  have hdeclares : (Scope.ofFiles unitName files interfaces).declares fullName = true :=
    List.any_eq_true.2 ⟨t, List.mem_of_find?_eq_some hfind, hname⟩
  refine ⟨if_pos hdeclares, ?_⟩
  rw [Surroundings.typeNamed?, find?_classes, hfind]
  rfl

/-- The home of any other type is the first interface that has it. -/
theorem home?_foreign {fullName : String}
    (hfind : (declaredTypes files).find? (·.fullName == fullName) = none) :
    let home := interfaces.find? fun i => (i.type? fullName).isSome
    (Scope.ofFiles unitName files interfaces).home? fullName = home.map (·.name) ∧
      (Surroundings.ofFiles files interfaces).typeNamed? fullName =
        (home.bind (·.type? fullName)).map .foreign := by
  have hdeclares : ¬ (Scope.ofFiles unitName files interfaces).declares fullName = true := by
    intro hany
    obtain ⟨t, ht, hname⟩ := List.any_eq_true.1 hany
    exact List.find?_eq_none.1 hfind t ht hname
  refine ⟨if_neg hdeclares, ?_⟩
  rw [Surroundings.typeNamed?, find?_classes, hfind, ← findSome?_eq_bind]
  rfl

variable (hmembers : ∀ f ∈ files, ∀ c ∈ f.program.classes, (OwnType.ofClass f c).2 = [])
  (hnames : (unitName :: interfaces.map (·.name)).Nodup)

include hmembers hnames

/-- A full name that has no home names no type, and any other one names a type with the methods
that calls to its home are checked against. -/
theorem home?_cases (fullName : String) :
    let scope := Scope.ofFiles unitName files interfaces
    let s := Surroundings.ofFiles files interfaces
    (scope.home? fullName = none ∧ s.typeNamed? fullName = none) ∨
      ∃ unit t, scope.home? fullName = some unit ∧ s.typeNamed? fullName = some t ∧
        ∀ method, scope.arity? unit fullName method = t.arity? method := by
  intro scope s
  cases hfind : (declaredTypes files).find? (·.fullName == fullName) with
  | some t =>
    obtain ⟨hhome, hnamed⟩ := home?_own unitName interfaces hfind
    refine Or.inr ⟨unitName, .own t.declaring, hhome, hnamed, fun method => ?_⟩
    rw [arity?_own, hfind]
    exact arity?_declaring (List.mem_of_find?_eq_some hfind) hmembers method
  | none =>
    obtain ⟨hhome, hnamed⟩ := home?_foreign hfind
    cases hforeign : interfaces.find? fun i => (i.type? fullName).isSome with
    | none =>
      rw [hforeign] at hhome hnamed
      exact Or.inl ⟨hhome, hnamed⟩
    | some i =>
      have hi := List.mem_of_find?_eq_some hforeign
      have hsome : (i.type? fullName).isSome = true := by simpa using List.find?_some hforeign
      obtain ⟨t, ht⟩ := Option.isSome_iff_exists.1 hsome
      obtain ⟨hother, hdistinct⟩ := List.nodup_cons.1 hnames
      have hunit : i.name ≠ unitName := fun heq => hother (heq ▸ List.mem_map_of_mem hi)
      rw [hforeign] at hhome hnamed
      rw [Option.bind_some, ht] at hnamed
      refine Or.inr ⟨i.name, .foreign t, hhome, hnamed, fun method => ?_⟩
      rw [arity?_foreign hunit, find?_key hdistinct hi, Option.bind_some, ht]
      rfl

/-- A written name leads to the same methods whether it is resolved to a unit first or not. -/
theorem resolve?_arity (p : Source.Program) (written method : String) :
    let scope := Scope.ofFiles unitName files interfaces
    ((scope.resolve? p written).bind fun target => scope.arity? target.1 target.2 method) =
      ((Surroundings.ofFiles files interfaces).typeSeen? p written).bind (·.arity? method) := by
  intro scope
  rw [Surroundings.typeSeen?_eq, Scope.resolve?]
  induction Scope.candidates p written with
  | nil => rfl
  | cons fullName rest ih =>
    rw [List.findSome?_cons, List.findSome?_cons]
    rcases home?_cases hmembers hnames fullName with ⟨hnone, hunnamed⟩ |
      ⟨unit, t, hhome, hnamed, harity⟩
    · rw [hnone, hunnamed]
      exact ih
    · rw [hhome, hnamed]
      exact harity method

theorem takes?_declaring {t : OwnType} (ht : t ∈ declaredTypes files) (callee : QualifiedName) :
    (t.site (.ofFiles unitName files interfaces)).takes? callee =
      (Surroundings.ofFiles files interfaces).takes? t.declaring callee := by
  have hsibling : (t.site (.ofFiles unitName files interfaces)).sibling? callee =
      (if callee.isSimple then t.declaring.method? callee.last else none).map
        (·.parameters.length) := by
    rw [Site.sibling?]
    split
    · exact arity?_declaring ht hmembers callee.last
    · rfl
  rw [Site.takes?, Surroundings.takes?, hsibling]
  cases (if callee.isSimple then t.declaring.method? callee.last else none) with
  | some m => rfl
  | none =>
    rw [Option.map_none]
    cases Builtin.ofSpelling? callee.written with
    | some b => rfl
    | none =>
      cases callee.qualifier? with
      | none => rfl
      | some qualifier => exact resolve?_arity hmembers hnames t.declaring.program _ _

theorem meets_declaring {t : OwnType} (ht : t ∈ declaredTypes files) (m : Mention) :
    (t.site (.ofFiles unitName files interfaces)).Meets m ↔
      (Surroundings.ofFiles files interfaces).Meets t.declaring m := by
  cases m with
  | name known name =>
    obtain ⟨f, hf, c, hc, rfl⟩ := mem_declaredTypes.1 ht
    have hfields : (OwnType.ofClass f c).1.fields = c.fields.map (·.name) :=
      OwnType.ofClass_fields (hmembers f hf c hc)
    change name ∈ known ∨ name ∈ (OwnType.ofClass f c).1.fields ↔ _
    rw [hfields]
    rfl
  | call callee count =>
    change _ = _ ↔ _ = _
    rw [takes?_declaring hmembers hnames ht]

omit hmembers hnames in
theorem lowerType_faults_iff {scope : Scope} {t : OwnType} : (lowerType scope t).2 = [] ↔
    (∀ f ∈ t.decl.fields, ((t.site scope).field f).2 = []) ∧
      ∀ m ∈ t.decl.methods, ((t.site scope).method m).2 = [] := by
  refine ⟨lowerType_faults, fun h => List.append_eq_nil_iff.2 ⟨?_, ?_⟩⟩
  · rw [List.flatMap_map, List.flatMap_eq_nil_iff]
    exact h.1
  · rw [List.flatMap_map, List.flatMap_eq_nil_iff]
    exact h.2

/-- With distinct members, a type is lowered without a fault if its code keeps to the scope. -/
theorem bodies_declaring {t : OwnType} (ht : t ∈ declaredTypes files) :
    (lowerType (.ofFiles unitName files interfaces) t).2 = [] ↔
      (∀ f ∈ t.decl.fields, ∀ m ∈ f.value.mentions [],
        (Surroundings.ofFiles files interfaces).Meets t.declaring m) ∧
      ∀ m ∈ t.decl.methods, (m.parameters.map (·.node) ++ declaredIn m.body).Nodup ∧
        ∀ mention ∈ mentionsIn (m.parameters.map (·.node)) m.body,
          (Surroundings.ofFiles files interfaces).Meets t.declaring mention := by
  have hfield : ∀ f : Source.Field,
      ((t.site (.ofFiles unitName files interfaces)).field f).2 = [] ↔
        ∀ m ∈ f.value.mentions [], (t.site (.ofFiles unitName files interfaces)).Meets m :=
    fun f => Site.expr_faults_iff f.value
  simp only [lowerType_faults_iff, hfield, Site.method_faults_iff,
    meets_declaring hmembers hnames ht]

omit hmembers in
/-- Files are without fault exactly if they are well scoped. -/
theorem faultless_iff : Faultless unitName files interfaces ↔
    (Surroundings.ofFiles files interfaces).WellScoped := by
  have hfullNames : (Surroundings.ofFiles files interfaces).classes.map (·.fullName) =
      (declaredTypes files).map (·.fullName) := by
    rw [classes_eq, List.map_map]
    exact List.map_congr_left fun t ht => Accepted.declaring_fullName ht
  have hmem : ∀ {c}, c ∈ (Surroundings.ofFiles files interfaces).classes ↔
      ∃ t ∈ declaredTypes files, t.declaring = c := by
    intro c
    rw [classes_eq, List.mem_map]
  constructor
  · intro h
    refine ⟨hfullNames ▸ h.types_nodup, fun c hc => ?_⟩
    obtain ⟨t, ht, rfl⟩ := hmem.1 hc
    obtain ⟨hinits, hmethods⟩ := (bodies_declaring h.members hnames ht).1 (h.bodies t ht)
    obtain ⟨f, hf, decl, hdecl, rfl⟩ := mem_declaredTypes.1 ht
    obtain ⟨hfieldNames, hmethodNames⟩ :=
      (OwnType.ofClass_faults_iff f decl).1 (h.members f hf decl hdecl)
    exact ⟨hfieldNames, hmethodNames, hinits, fun m hm => (hmethods m hm).1,
      fun m hm => (hmethods m hm).2⟩
  · intro h
    have hmembers : ∀ f ∈ files, ∀ c ∈ f.program.classes, (OwnType.ofClass f c).2 = [] := by
      intro f hf c hc
      have hclass := h.classes _
        (hmem.2 ⟨_, mem_declaredTypes.2 ⟨f, hf, c, hc, rfl⟩, rfl⟩)
      exact (OwnType.ofClass_faults_iff f c).2 ⟨hclass.fields_nodup, hclass.methods_nodup⟩
    refine ⟨hfullNames ▸ h.types_nodup, hmembers, fun t ht => ?_⟩
    have hclass := h.classes _ (hmem.2 ⟨t, ht, rfl⟩)
    exact (bodies_declaring hmembers hnames ht).2
      ⟨hclass.inits, fun m hm => ⟨hclass.locals_nodup m hm, hclass.bodies m hm⟩⟩

end Files

end Compile

/-- Compilation accepts exactly the well scoped units, and to an image in which every part of
their code has the form of its own. -/
theorem compile_ok_iff_wellScoped {u : SourceUnit} {files : List ParsedFile}
    {interfaces : List Image} (hfiles : u.parse = .ok files)
    (hnames : (u.name :: interfaces.map (·.name)).Nodup) :
    ((∃ image, compile u interfaces = .ok image) ↔
      (Compile.Surroundings.ofFiles files interfaces).WellScoped) ∧
    ∀ image, compile u interfaces = .ok image →
      List.Forall₂ Compile.ClassLowers (files.flatMap (·.program.classes)) image.types := by
  refine ⟨?_, fun image h => ?_⟩
  · rw [← Compile.faultless_iff hnames]
    constructor
    · rintro ⟨image, h⟩
      obtain ⟨other, hother, hlowered⟩ := Compile.compile_eq_ok.1 h
      obtain rfl : files = other := Except.ok.inj (hfiles.symm.trans hother)
      exact (Compile.lowerFiles_eq_ok.1 hlowered).1
    · intro h
      exact ⟨_, Compile.compile_eq_ok.2 ⟨files, hfiles, Compile.lowerFiles_eq_ok.2 ⟨h, rfl⟩⟩⟩
  · obtain ⟨other, hother, haccepted⟩ := Compile.accepted_of_compile h
    obtain rfl : files = other := Except.ok.inj (hfiles.symm.trans hother)
    exact haccepted.classes_lower

/-- The unit of a shop compiles, so its code mentions only what the books and itself declare. -/
theorem compile_ok_iff_wellScoped_shop : ∃ files, shopUnit.parse = .ok files ∧
    (shopUnit.name :: [booksImage].map (·.name)).Nodup ∧
      (Compile.Surroundings.ofFiles files [booksImage]).WellScoped ∧
        ∃ image, compile shopUnit [booksImage] = .ok image ∧
          List.Forall₂ Compile.ClassLowers (files.flatMap (·.program.classes)) image.types := by
  obtain ⟨image, hcompile⟩ := shopUnit_compiles
  obtain ⟨files, hfiles, -⟩ := Compile.accepted_of_compile hcompile
  have hnames : (shopUnit.name :: [booksImage].map (·.name)).Nodup := by decide
  obtain ⟨haccepts, hlowers⟩ := compile_ok_iff_wellScoped hfiles hnames
  exact ⟨files, hfiles, hnames, haccepts.1 ⟨image, hcompile⟩, image, hcompile,
    hlowers image hcompile⟩

-- Without the books, the call of their ledger is to nothing that is known.
example : (shopUnit.parse.toOption.map fun files =>
    (decide (Compile.Surroundings.ofFiles files [booksImage]).WellScoped,
      decide (Compile.Surroundings.ofFiles files []).WellScoped)) = some (true, false) := by
  decide +kernel

end TestBench
