import Mathlib.Data.List.Perm.Basic
import TestBench.Proofs.AlikeScopes
import TestBench.Proofs.FaultlessFiles
import TestBench.Proofs.ServedImages

/-!
The order of source files. Each file is parsed on its own, and a scope is only
asked for types by their full names, which are distinct if the files compile. So
files compile in any order if they do in one, every type is lowered to the same
code, and the image lists the types of the files in the order that they are
given in. No run can tell the two images apart.
-/
namespace TestBench

theorem parseFiles_eq_ok {sources : List SourceFile} {files : List ParsedFile} :
    parseFiles sources = .ok files ↔ List.Forall₂ (fun s f => s.parse = .ok f) sources files := by
  induction sources generalizing files with
  | nil =>
    rw [parseFiles, List.forall₂_nil_left_iff]
    exact ⟨fun h => (Except.ok.inj h).symm, fun h => congrArg Except.ok h.symm⟩
  | cons s rest ih =>
    rw [parseFiles, List.forall₂_cons_left_iff]
    constructor
    · intro h
      split at h
      · next f more hf hmore =>
        exact ⟨f, more, hf, ih.1 hmore, (Except.ok.inj h).symm⟩
      all_goals cases h
    · rintro ⟨f, more, hf, hmore, rfl⟩
      rw [hf, ih.2 hmore]

theorem exists_parsed {sources : List SourceFile} {files : List ParsedFile}
    (h : parseFiles sources = .ok files) : ∀ s ∈ sources, ∃ f, s.parse = .ok f := by
  have hfiles := parseFiles_eq_ok.1 h
  clear h
  induction hfiles with
  | nil => exact List.forall_mem_nil _
  | cons hf _ ih => exact List.forall_mem_cons.2 ⟨⟨_, hf⟩, ih⟩

/-- Files in another order parse to the same trees in that order. -/
theorem parseFiles_perm {sources others : List SourceFile} {files : List ParsedFile}
    (hperm : sources.Perm others) (h : parseFiles sources = .ok files) :
    ∃ more, parseFiles others = .ok more ∧ files.Perm more := by
  obtain ⟨more, hmore, hfiles⟩ := List.perm_comp_forall₂ hperm.symm (parseFiles_eq_ok.1 h)
  exact ⟨more, parseFiles_eq_ok.2 hmore, hfiles.symm⟩

/-- What is made of the trees of files is made of each file by itself. -/
theorem flatMap_parsed {β : Type} {sources : List SourceFile} {files : List ParsedFile}
    (h : parseFiles sources = .ok files) (g : ParsedFile → List β) :
    files.flatMap g = sources.flatMap fun s => (s.parse.toOption.map g).getD [] := by
  have hfiles := parseFiles_eq_ok.1 h
  clear h
  induction hfiles with
  | nil => rfl
  | cons hf _ ih => rw [List.flatMap_cons, List.flatMap_cons, ih, hf]; rfl

namespace Compile

variable {unitName : String} {files others : List ParsedFile} {interfaces : List Image}

theorem declaredTypes_perm (hperm : files.Perm others) :
    (declaredTypes files).Perm (declaredTypes others) :=
  hperm.flatMap_right _

/-- Scopes are alike whatever the order of the files that declare their types. -/
theorem alike_of_perm (hnodup : ((declaredTypes files).map (·.fullName)).Nodup)
    (hperm : files.Perm others) :
    (Scope.ofFiles unitName files interfaces).Alike (.ofFiles unitName others interfaces) where
  home?_eq fullName := by
    have hdeclares : (Scope.ofFiles unitName files interfaces).declares fullName =
        (Scope.ofFiles unitName others interfaces).declares fullName :=
      (declaredTypes_perm hperm).any_eq
    rw [Scope.home?, Scope.home?, hdeclares]
    rfl
  arity?_eq unit fullName method := by
    have hfind := find?_perm hnodup (declaredTypes_perm hperm) fullName
    simp only [Scope.arity?, Scope.ofFiles, hfind]
    rfl

theorem Faultless.perm (h : Faultless unitName files interfaces) (hperm : files.Perm others) :
    Faultless unitName others interfaces where
  types_nodup := (((declaredTypes_perm hperm).map _).nodup_iff).1 h.types_nodup
  members f hf := h.members f (hperm.symm.subset hf)
  bodies t ht := by
    rw [← lowerType_alike (alike_of_perm h.types_nodup hperm)]
    exact h.bodies t ((declaredTypes_perm hperm).symm.subset ht)

/-- The types that a file gives to the image of its unit. -/
def typesOf (scope : Scope) (f : ParsedFile) : List Image.TypeDecl :=
  f.program.classes.map fun c => (lowerType scope (OwnType.ofClass f c).1).1

theorem typesOf_fullNames (scope : Scope) (f : ParsedFile) :
    (typesOf scope f).map (·.fullName) = f.program.typeNames := by
  rw [typesOf, List.map_map]
  exact List.map_congr_left fun c _ => by rw [Function.comp_apply, lowerType_eq]; rfl

theorem types_flatMap (scope : Scope) (files : List ParsedFile) :
    ((declaredTypes files).map fun t => (lowerType scope t).1) = files.flatMap (typesOf scope) := by
  rw [declaredTypes, List.map_flatMap]
  simp only [List.map_map]
  rfl

end Compile

/-- The images of a unit with its files in two orders. Each file gives the same block of types to
both, the types that it declares, in their order. -/
structure Image.Reordered (image : Image) (sources others : List SourceFile) (other : Image) :
    Prop where
  name_eq : other.name = image.name
  references_eq : other.references = image.references
  blocks : ∃ block : SourceFile → List Image.TypeDecl,
    image.types = sources.flatMap block ∧ other.types = others.flatMap block ∧
      ∀ s ∈ sources, ∃ f, s.parse = .ok f ∧ (block s).map (·.fullName) = f.program.typeNames
  types_perm : image.types.Perm other.types
  type?_eq : ∀ fullName, other.type? fullName = image.type? fullName

namespace Compile

variable {name : String} {references : List Reference} {interfaces : List Image}
  {sources others : List SourceFile}

/-- The images of files without faults are the same up to the order of the files. -/
theorem Faultless.reordered {files more : List ParsedFile} (hfiles : parseFiles sources = .ok files)
    (hmore : parseFiles others = .ok more) (hperm : files.Perm more)
    (h : Faultless name files interfaces) (references : List String) :
    Image.Reordered
      ⟨name, references,
        (declaredTypes files).map fun t => (lowerType (.ofFiles name files interfaces) t).1⟩
      sources others
      ⟨name, references,
        (declaredTypes more).map fun t => (lowerType (.ofFiles name more interfaces) t).1⟩ := by
  have hlower : lowerType (.ofFiles name more interfaces) =
      lowerType (.ofFiles name files interfaces) :=
    (funext (lowerType_alike (alike_of_perm h.types_nodup hperm))).symm
  have htypes := (declaredTypes_perm hperm).map fun t =>
    (lowerType (.ofFiles name files interfaces) t).1
  have hnodup : (((declaredTypes files).map fun t =>
      (lowerType (.ofFiles name files interfaces) t).1).map (·.fullName)).Nodup := by
    rw [List.map_map]
    exact h.types_nodup
  rw [hlower]
  refine ⟨rfl, rfl, ⟨fun s => (s.parse.toOption.map
    (typesOf (.ofFiles name files interfaces))).getD [], ?_, ?_, ?_⟩, htypes, ?_⟩
  · rw [types_flatMap]
    exact flatMap_parsed hfiles _
  · rw [types_flatMap]
    exact flatMap_parsed hmore _
  · intro s hs
    obtain ⟨f, hf⟩ := exists_parsed hfiles s hs
    refine ⟨f, hf, ?_⟩
    beta_reduce
    rw [hf]
    exact typesOf_fullNames _ f
  · exact fun fullName => (find?_perm hnodup htypes fullName).symm

theorem compile_perm_ok (hperm : sources.Perm others)
    (h : ∃ image, compile (.mk name sources references) interfaces = .ok image) :
    ∃ image, compile (.mk name others references) interfaces = .ok image := by
  obtain ⟨image, h⟩ := h
  obtain ⟨files, hfiles, hlowered⟩ := compile_eq_ok.1 h
  obtain ⟨more, hmore, hfilesPerm⟩ := parseFiles_perm hperm hfiles
  have hfaultless := (lowerFiles_eq_ok.1 hlowered).1.perm hfilesPerm
  exact ⟨_, compile_eq_ok.2 ⟨more, hmore, lowerFiles_eq_ok.2 ⟨hfaultless, rfl⟩⟩⟩

theorem compile_perm_reordered (hperm : sources.Perm others) {image other : Image}
    (h : compile (.mk name sources references) interfaces = .ok image)
    (hother : compile (.mk name others references) interfaces = .ok other) :
    image.Reordered sources others other := by
  obtain ⟨files, hfiles, hlowered⟩ := compile_eq_ok.1 h
  obtain ⟨more, hmore, hlowered'⟩ := compile_eq_ok.1 hother
  obtain ⟨found, hfound, hfilesPerm⟩ := parseFiles_perm hperm hfiles
  obtain rfl : found = more := Except.ok.inj (hfound.symm.trans hmore)
  obtain ⟨hfaultless, rfl⟩ := lowerFiles_eq_ok.1 hlowered
  obtain ⟨-, rfl⟩ := lowerFiles_eq_ok.1 hlowered'
  exact hfaultless.reordered hfiles hfound hfilesPerm _

end Compile

/-- The order of its files makes no difference to whether a unit compiles and to how it behaves,
only to the order of the types in its image. -/
theorem compile_perm {name : String} {sources others : List SourceFile}
    {references : List Reference} {interfaces : List Image} (hperm : sources.Perm others) :
    ((∃ image, compile (.mk name sources references) interfaces = .ok image) ↔
      ∃ image, compile (.mk name others references) interfaces = .ok image) ∧
    ∀ image other, compile (.mk name sources references) interfaces = .ok image →
      compile (.mk name others references) interfaces = .ok other →
        image.Reordered sources others other ∧ image.RunsAs other := by
  refine ⟨⟨Compile.compile_perm_ok hperm, Compile.compile_perm_ok hperm.symm⟩, ?_⟩
  intro image other h hother
  have hreordered := Compile.compile_perm_reordered hperm h hother
  exact ⟨hreordered, Image.runsAs hreordered.references_eq hreordered.type?_eq⟩

def tillFile : SourceFile :=
  ⟨"till.tdl", "namespace Front; use Back; class Till \x7b let all = 1; " ++
    "fn add(n) \x7b return Purse.keep(all, n); \x7d \x7d"⟩

def purseFile : SourceFile :=
  ⟨"purse.tdl", "namespace Back; class Purse \x7b " ++
    "fn keep(a, b) \x7b return Ledger.sum(a, b); \x7d \x7d"⟩

def marketUnit (sources : List SourceFile) : SourceUnit :=
  .mk "Market" sources [.binary "Books.tdi"]

theorem marketUnit_compiles :
    ∃ image, compile (marketUnit [tillFile, purseFile]) [booksImage] = .ok image ∧
      image.types.map (·.fullName) = ["Front.Till", "Back.Purse"] := by
  have hnames : (compile (marketUnit [tillFile, purseFile]) [booksImage]).toOption.map
      (fun image => image.types.map (·.fullName)) = some ["Front.Till", "Back.Purse"] := by
    decide +kernel
  cases hcompile : compile (marketUnit [tillFile, purseFile]) [booksImage] with
  | error diagnostics =>
    rw [hcompile] at hnames
    cases hnames
  | ok image =>
    rw [hcompile] at hnames
    exact ⟨image, rfl, Option.some.inj hnames⟩

/-- Of two files one uses the types of the other, and they compile in both orders. -/
theorem compile_perm_market : [tillFile, purseFile].Perm [purseFile, tillFile] ∧
    ∃ image other, compile (marketUnit [tillFile, purseFile]) [booksImage] = .ok image ∧
      compile (marketUnit [purseFile, tillFile]) [booksImage] = .ok other ∧
        image.types.map (·.fullName) = ["Front.Till", "Back.Purse"] ∧
          image.Reordered [tillFile, purseFile] [purseFile, tillFile] other ∧
            image.RunsAs other := by
  have hperm : [tillFile, purseFile].Perm [purseFile, tillFile] := List.Perm.swap _ _ _
  obtain ⟨image, hcompile, hnames⟩ := marketUnit_compiles
  obtain ⟨haccepts, hsame⟩ := compile_perm hperm
  obtain ⟨other, hother⟩ := haccepts.1 ⟨image, hcompile⟩
  exact ⟨hperm, image, other, hcompile, hother, hnames, hsame image other hcompile hother⟩

end TestBench
