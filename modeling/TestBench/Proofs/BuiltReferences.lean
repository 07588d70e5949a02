import Mathlib.Data.List.Perm.Basic
import TestBench.Proofs.ExternalVerdicts
import TestBench.Proofs.GenuineStores
import TestBench.Proofs.NeededImages

/-!
Units that are built before they are used. The image of a unit says everything
that another unit is compiled against, and the file of an image leads back to
its name. So it makes no difference whether a unit refers to other units or to
the files that these have been built into: the same image comes out, and the
closure has the same bytes.
-/
namespace TestBench

namespace NameMap

variable {α : Type}

theorem find?_of_mem {entries : List (String × α)}
    (h : entries.Pairwise fun a b => a.1 < b.1) {e : String × α} (he : e ∈ entries) :
    find? entries e.1 = some e.2 := by
  induction entries with
  | nil => cases he
  | cons first rest ih =>
    obtain ⟨hfirst, hrest⟩ := List.pairwise_cons.1 h
    rcases List.mem_cons.1 he with rfl | he
    · simp [find?]
    · have hne : first.1 ≠ e.1 := fun heq => String.lt_irrefl _ (heq ▸ hfirst e he)
      rw [← ih hrest he, find?, find?, List.find?_cons_of_neg (by simpa using hne)]

theorem mem_entries_iff {m : NameMap α} {e : String × α} :
    e ∈ m.entries ↔ m.get? e.1 = some e.2 :=
  ⟨find?_of_mem m.sorted, fun h => mem_of_get? h⟩

/-- A map is what can be found in it. -/
theorem ext_get? {m m' : NameMap α} (h : ∀ key, m.get? key = m'.get? key) : m = m' := by
  have hnodup : ∀ m : NameMap α, m.entries.Nodup := by
    intro m
    refine m.sorted.imp ?_
    rintro a b hlt rfl
    exact String.lt_irrefl _ hlt
  have hperm : m.entries.Perm m'.entries := by
    rw [List.perm_ext_iff_of_nodup (hnodup m) (hnodup m')]
    intro e
    rw [mem_entries_iff, mem_entries_iff, h]
  have hentries : m.entries = m'.entries :=
    hperm.eq_of_pairwise (fun a b _ _ hab hba => absurd (String.lt_trans hab hba)
      (String.lt_irrefl _)) m.sorted m'.sorted
  cases m
  cases m'
  cases hentries
  rfl

end NameMap

section Names

variable {name : String}

/-- The file of an image has its name, whichever directory it is in. -/
theorem binaryName_join (directory : String) (hvalid : Image.isValidName name = true) :
    binaryName (Path.join directory (Image.fileName name)) = name := by
  have hfile := Image.not_mem_fileName hvalid
  have hname : Path.fileName? (Path.join directory (Image.fileName name)).toList =
      some (Image.fileName name).toList := by
    rw [Path.toList_join hfile]
    split
    · exact Image.fileName?_fileName hvalid
    · have hcomponent : Path.component? (Image.fileName name).toList =
          some (.name (Image.fileName name).toList) := by
        have hne : ∀ cs : List Char, cs.length ≤ 4 → (Image.fileName name).toList ≠ cs :=
          fun cs => Image.fileName_ne hvalid
        rw [Path.component?, if_neg (not_or.2 ⟨hne _ (by decide), hne _ (by decide)⟩),
          if_neg (hne _ (by decide))]
      rw [Path.fileName?, Path.components, Path.splitAt_append, Path.splitAt_of_not_mem hfile,
        List.filterMap_append, List.filterMap_cons_some hcomponent, List.filterMap_nil,
        ← List.append_assoc, List.getLast?_concat]
  rw [binaryName, Path.stem?, hname, Option.map_some, Image.splitExtension_fileName hvalid]
  exact String.ofList_toList

end Names

/-- The unit with files of images in a directory in place of all that it refers to. -/
def SourceUnit.built (u : SourceUnit) (directory : String) : SourceUnit :=
  .mk u.name u.sources
    (u.references.map fun r => .binary (Path.join directory (Image.fileName r.name)))

namespace Materialize

section Interfaces

variable {u : SourceUnit} {directory : String}

theorem names_built (hvalid : ∀ r ∈ u.references, Image.isValidName r.name = true) :
    (u.built directory).references.map Reference.name = u.references.map Reference.name := by
  change (u.references.map fun r => Reference.binary _).map Reference.name = _
  rw [List.map_map]
  exact List.map_congr_left fun r hr => binaryName_join directory (hvalid r hr)

/-- The images that a unit is compiled against depend on the names of its references only. -/
theorem interfaces_congr {decoded decoded' : NameMap Image}
    {references references' : List Reference}
    (hnames : references'.map Reference.name = references.map Reference.name)
    (hdecoded : ∀ r ∈ references, decoded'.get? r.name = decoded.get? r.name) :
    interfaces decoded' references' = interfaces decoded references := by
  have hfilter : ∀ (decoded : NameMap Image) (references : List Reference),
      references.filterMap (fun r => decoded.get? r.name) =
        (references.map Reference.name).filterMap decoded.get? := by
    intro decoded references
    rw [List.filterMap_map]
    rfl
  have hsame : references'.filterMap (fun r => decoded'.get? r.name) =
      references.filterMap fun r => decoded.get? r.name := by
    rw [hfilter, hnames, ← hfilter]
    exact List.filterMap_congr hdecoded
  rw [interfaces, hsame, interfaces]

theorem compile_built (hvalid : ∀ r ∈ u.references, Image.isValidName r.name = true)
    (images : List Image) : compile (u.built directory) images = compile u images := by
  rw [compile, compile, names_built hvalid]
  rfl

end Interfaces

section Reading

variable {kept : Files} {q p : Pass}

/-- The pass has just what another one has under some names, and so does its store. -/
structure ReadFrom (q : Pass) (names : List String) (p : Pass) : Prop where
  images : ∀ name, p.images.get? name = if name ∈ names then q.images.get? name else none
  decoded : ∀ name, p.decoded.get? name = if name ∈ names then q.decoded.get? name else none
  store : ∀ name, p.store.get? name = p.images.get? name

theorem ReadFrom.start (q : Pass) : ReadFrom q [] (.start .empty) where
  images _ := rfl
  decoded _ := rfl
  store _ := rfl

/-- What another pass has under a name, so that it can be read from a file. -/
structure Readable (kept : Files) (q : Pass) (path : String) (stored : StoredImage) : Prop where
  held : q.images.get? (binaryName path) = some stored
  genuine : stored.Genuine (binaryName path)
  decoded : ∃ image, q.decoded.get? (binaryName path) = some image ∧
    Image.decode stored.bytes = .ok image
  read : kept.read path = .ok stored.bytes

theorem ReadFrom.addBinary {names : List String} {path : String} {stored : StoredImage}
    (h : ReadFrom q names p) (hread : Readable kept q path stored)
    (hnew : binaryName path ∉ names) : ∃ p',
      addBinary kept (binaryName path) path p = (.ok (), p') ∧
        ReadFrom q (names ++ [binaryName path]) p' := by
  obtain ⟨image, hdecoded, hdecode⟩ := hread.decoded
  have himage : readBinary (binaryName path) path stored.bytes = .ok image := by
    obtain ⟨found, hfound, hname⟩ := hread.genuine.decodes
    obtain rfl := Except.ok.inj (hdecode.symm.trans hfound)
    exact readBinary_eq_ok.2 ⟨hdecode, hname⟩
  have hload : load kept (binaryName path) path = .ok stored := by
    have hstored : StoredImage.ofBytes (binaryName path) stored.bytes = stored := by
      rw [StoredImage.ofBytes, ← hread.genuine.name_eq, ← hread.genuine.digest_eq]
    rw [load, hread.read]
    simp only [himage, bind, Except.bind]
    rw [hstored]
    rfl
  have hnone : p.store.get? (binaryName path) = none := by
    rw [h.store, h.images, if_neg hnew]
  refine ⟨{ p with store := p.store.insert (binaryName path) stored }.addImage (binaryName path)
    stored image, ?_, ?_⟩
  · rw [Materialize.addBinary, Store.getOrAdd, hnone]
    simp only [hload, himage]
  · refine ⟨fun name => ?_, fun name => ?_, fun name => ?_⟩
    · change (p.images.insert (binaryName path) stored).get? name = _
      rw [NameMap.get?_insert, h.images]
      by_cases hname : name = binaryName path
      · simp [hname, hread.held]
      · simp [hname]
    · rw [Pass.decoded_addImage]
      change (if name = binaryName path then some image else p.decoded.get? name) = _
      rw [h.decoded]
      by_cases hname : name = binaryName path
      · simp [hname, hdecoded]
      · simp [hname]
    · change (p.store.insert (binaryName path) stored).get? name =
        (p.images.insert (binaryName path) stored).get? name
      rw [NameMap.get?_insert, NameMap.get?_insert, h.store]

theorem ReadFrom.visitReference {names : List String} {path : String} {stored : StoredImage}
    (h : ReadFrom q names p) (hread : Readable kept q path stored) (stack : List String) :
    ∃ p', visitReference kept (.binary path) stack p = (.ok (), p') ∧
      ReadFrom q (names ++ [binaryName path]) p' := by
  rw [Materialize.visitReference]
  simp only [hread.genuine.valid]
  by_cases hmet : binaryName path ∈ names
  · refine ⟨p, ?_, ?_⟩
    · rw [NameMap.contains, h.images, if_pos hmet, hread.held]
      rfl
    · have hsame : ∀ name, name ∈ names ++ [binaryName path] ↔ name ∈ names := by
        intro name
        rw [List.mem_append, List.mem_singleton]
        exact or_iff_left_of_imp fun heq => heq ▸ hmet
      refine ⟨fun name => ?_, fun name => ?_, h.store⟩
      · rw [h.images]
        simp only [hsame]
      · rw [h.decoded]
        simp only [hsame]
  · obtain ⟨p', hadd, hp'⟩ := h.addBinary hread hmet
    refine ⟨p', ?_, hp'⟩
    rw [NameMap.contains, h.images, if_neg hmet]
    exact hadd

theorem ReadFrom.visitAll {names : List String} {references : List Reference}
    (h : ReadFrom q names p) (stack : List String) (hread : ∀ r ∈ references, ∃ path stored,
      r = .binary path ∧ Readable kept q path stored) :
    ∃ p', visitAll kept references stack p = (.ok (), p') ∧
      ReadFrom q (names ++ references.map Reference.name) p' := by
  induction references generalizing names p with
  | nil => exact ⟨p, by rw [Materialize.visitAll], by rwa [List.map_nil, List.append_nil]⟩
  | cons r rest ih =>
    obtain ⟨hfirst, hrest⟩ := List.forall_mem_cons.1 hread
    obtain ⟨path, stored, rfl, hfirst⟩ := hfirst
    obtain ⟨between, hstep, hbetween⟩ := h.visitReference hfirst stack
    obtain ⟨p', hlater, hp'⟩ := ih hbetween hrest
    refine ⟨p', ?_, ?_⟩
    · rw [Materialize.visitAll, hstep]
      exact hlater
    · rw [List.map_cons, List.append_cons]
      exact hp'

end Reading

section Roots

variable {files kept : Files} {u : SourceUnit} {stack : List String} {p q r : Pass}

theorem emit_get? (hemit : emit u r = (.ok (), q)) : ∃ image bytes,
    compile u (interfaces r.decoded u.references) = .ok image ∧ image.encode? = some bytes ∧
      (∀ name, q.images.get? name =
        if name = u.name then some (.ofBytes u.name bytes) else r.images.get? name) ∧
      ∀ name, q.decoded.get? name = if name = u.name then some image else r.decoded.get? name := by
  obtain ⟨image, bytes, hcompile, hbytes, rfl⟩ := emit_eq_ok hemit
  exact ⟨image, bytes, hcompile, hbytes, fun name => NameMap.get?_insert r.images u.name name _,
    Pass.decoded_addImage⟩

theorem visit_of_emit (hvalid : Image.isValidName u.name = true) (hfresh : u.name ∉ stack)
    (hall : visitAll files u.references (stack ++ [u.name]) p = (.ok (), r))
    (hemit : emit u r = (.ok (), q)) : visit files u stack p = (.ok (), q) := by
  obtain ⟨name, sources, references⟩ := u
  change Image.isValidName name = true at hvalid
  change name ∉ stack at hfresh
  change visitAll files references (stack ++ [name]) p = (.ok (), r) at hall
  rw [visit, if_neg (by simp [hvalid]), if_neg (by simp [hfresh]), hall]
  simp only [hemit]

theorem dangling?_of_get? {order : Order} (h : ∀ name image, p.decoded.get? name = some image →
    ∀ r ∈ image.references, p.images.contains r = true) : dangling? order p = none := by
  refine dangling?_eq_none_iff.2 fun image himage => ?_
  obtain ⟨e, he, rfl⟩ := List.mem_map.1 himage
  exact h e.1 e.2 (NameMap.mem_entries_iff.1 he)

/-- What a walk has decoded it can read again from files with the same bytes. -/
theorem readable_of_visit {path : String} {stored : StoredImage} {name : String}
    (hname : binaryName path = name) (hvisit : visit files u [] (.start .empty) = (.ok (), q))
    (hheld : q.images.get? name = some stored) (hgenuine : stored.Genuine name)
    (hread : kept.read path = .ok stored.bytes) : Readable kept q path stored := by
  subst hname
  obtain ⟨hwalked, -⟩ := visit_walks u (Pass.consistent_start _) hvisit
  have hcontains : q.images.contains (binaryName path) = true := by
    rw [NameMap.contains, hheld]
    rfl
  obtain ⟨image, himage⟩ := Option.isSome_iff_exists.1
    ((visit_tracks u (.start _) hvisit).decoded _ hcontains)
  obtain ⟨found, hfound, hdecode⟩ := hwalked.consistent.bytes _ image himage
  obtain rfl := Option.some.inj (hfound.symm.trans hheld)
  exact ⟨hheld, hgenuine, ⟨image, himage, hdecode⟩, hread⟩

end Roots

end Materialize

section Built

open Materialize

variable {files kept : Files} {u : SourceUnit} {closure : Closure} {after : Store}
  {directory : String}

/-- A reference to a unit is met with another name than that of the unit itself. -/
theorem references_met {r : Pass} (hunits : ∀ r ∈ u.references, ∃ v, r = .unit v)
    (hall : visitAll files u.references ([] ++ [u.name]) (.start .empty) = (.ok (), r)) :
    ∀ ref ∈ u.references, ref.name ≠ u.name ∧ r.images.contains ref.name = true := by
  intro ref href
  obtain ⟨v, rfl⟩ := hunits ref href
  obtain ⟨-, -, hfresh⟩ := visitAll_walks u.references (Pass.consistent_start _) hall
  have hother : v.name ≠ u.name := by simpa using hfresh v href
  have htracks : Tracks ([] ++ [u.name]) _ r :=
    visitAll_tracks u.references (Tracks.start .empty).enter hall
  have hfound := (meetAll_explores u.references ([] ++ [.unit u])).roots_met href
  refine ⟨hother, ((htracks.names v.name).1 ⟨_, hfound, rfl⟩).resolve_right fun hself => ?_⟩
  exact hother (by simpa using hself)

/-- What a unit refers to can be read again from files with the bytes of the images. -/
theorem references_readable (hunits : ∀ r ∈ u.references, ∃ v, r = .unit v) {q r : Pass}
    (hvisit : visit files u [] (.start .empty) = (.ok (), q))
    (hall : visitAll files u.references ([] ++ [u.name]) (.start .empty) = (.ok (), r))
    (hemit : emit u r = (.ok (), q)) (hgenuine : Store.Genuine q.images)
    (hkept : ∀ name stored, q.images.get? name = some stored → name ≠ u.name →
      kept.read (Path.join directory (Image.fileName name)) = .ok stored.bytes) :
    ∀ ref ∈ u.references, Image.isValidName ref.name = true ∧
      ∃ stored, Readable kept q (Path.join directory (Image.fileName ref.name)) stored := by
  intro ref href
  obtain ⟨hother, hcontains⟩ := references_met hunits hall ref href
  obtain ⟨stored, hstored⟩ := Option.isSome_iff_exists.1 hcontains
  obtain ⟨_, _, _, _, himages, -⟩ := emit_get? hemit
  have hheld : q.images.get? ref.name = some stored := by rw [himages, if_neg hother, hstored]
  have hstored := hgenuine ref.name stored hheld
  exact ⟨hstored.valid, stored, readable_of_visit (binaryName_join _ hstored.valid) hvisit hheld
    hstored (hkept _ stored hheld hother)⟩

/-- Compiled against what was read, a unit has the same image. -/
theorem emit_built {p q r : Pass} (hemit : emit u r = (.ok (), q))
    (hvalid : ∀ ref ∈ u.references, Image.isValidName ref.name = true)
    (hother : ∀ ref ∈ u.references, ref.name ≠ u.name)
    (hp : ReadFrom q (u.references.map Reference.name) p) :
    ∃ q', emit (u.built directory) p = (.ok (), q') ∧
      (∀ name, q'.images.get? name =
        if name = u.name then q.images.get? name else p.images.get? name) ∧
      ∀ name, q'.decoded.get? name =
        if name = u.name then q.decoded.get? name else p.decoded.get? name := by
  obtain ⟨image, bytes, hcompile, hbytes, himages, hdecoded⟩ := emit_get? hemit
  have hinterfaces : interfaces p.decoded (u.built directory).references =
      interfaces r.decoded u.references := by
    refine interfaces_congr (names_built hvalid) fun ref href => ?_
    rw [hp.decoded, if_pos (List.mem_map_of_mem href), hdecoded, if_neg (hother ref href)]
  have hemit' : emit (u.built directory) p = (.ok (), { p with
      store := p.store.add (.ofBytes u.name bytes) }.addImage u.name (.ofBytes u.name bytes)
        image) := by
    rw [emit, hinterfaces, compile_built hvalid, hcompile]
    simp only [hbytes]
    rfl
  refine ⟨_, hemit', fun name => ?_, fun name => ?_⟩
  · refine (NameMap.get?_insert p.images u.name name _).trans ?_
    split
    · next hself => rw [himages, if_pos hself]
    · rfl
  · refine (NameMap.get?_insert p.decoded u.name name _).trans ?_
    split
    · next hself => rw [hdecoded, if_pos hself]
    · rfl

/-- A unit with files in place of its references has the same closure, bytes and digests. -/
theorem materialize_built {order : Order} (hunits : ∀ r ∈ u.references, ∃ v, r = .unit v)
    (h : materialize order files .empty u = (.ok closure, after))
    (hdirect : ∀ name ∈ closure.names, name ≠ u.name → ∃ r ∈ u.references, r.name = name)
    (hkept : ∀ name stored, closure.get? name = some stored → name ≠ u.name →
      kept.read (Path.join directory (Image.fileName name)) = .ok stored.bytes)
    (order' : Order) : (materialize order' kept .empty (u.built directory)).1 = .ok closure := by
  have hgenuine := materialize_genuine Store.genuine_empty h
  obtain ⟨q, hvisit, hnone, rfl, -⟩ := dangling?_of_materialize h
  obtain ⟨hvalid, -, r, hall, hemit⟩ := visit_eq_ok hvisit
  have hread := references_readable hunits hvisit hall hemit hgenuine hkept
  have hfiles : ∀ ref ∈ (u.built directory).references, ∃ path stored, ref = .binary path ∧
      Readable kept q path stored := by
    intro ref href
    obtain ⟨source, hsource, rfl⟩ := List.mem_map.1 href
    obtain ⟨-, stored, hreadable⟩ := hread source hsource
    exact ⟨_, stored, rfl, hreadable⟩
  obtain ⟨p, hall', hp⟩ := (ReadFrom.start q).visitAll ([] ++ [u.name]) hfiles
  have hvalidNames := fun ref href => (hread ref href).1
  have hother := fun ref href => (references_met hunits hall ref href).1
  rw [List.nil_append, names_built hvalidNames] at hp
  obtain ⟨q', hemit', himages, hdecoded⟩ := emit_built hemit hvalidNames hother hp
  have hsame : q'.images = q.images := by
    refine NameMap.ext_get? fun name => ?_
    rw [himages, hp.images]
    split
    · rfl
    next hother =>
      split
      · rfl
      next hnew =>
        refine (Option.eq_none_iff_forall_not_mem.2 fun stored hstored => hnew ?_).symm
        obtain ⟨ref, href, rfl⟩ := hdirect name (NameMap.mem_keys.2 ⟨stored, hstored⟩) hother
        exact List.mem_map_of_mem href
  have hwhole : ∀ name found, q'.decoded.get? name = some found →
      q.decoded.get? name = some found := by
    intro name found hfound
    rw [hdecoded, hp.decoded] at hfound
    split at hfound
    · exact hfound
    split at hfound
    · exact hfound
    · cases hfound
  have hlinked : dangling? order' q' = none := by
    refine dangling?_of_get? fun name found hfound => ?_
    rw [hsame]
    exact dangling?_eq_none hnone (hwhole name found hfound)
  have hvisit' : visit kept (u.built directory) [] (.start .empty) = (.ok (), q') :=
    visit_of_emit (u := u.built directory) hvalid List.not_mem_nil hall' hemit'
  rw [materialize_of_visit hvisit' hlinked, hsame]
  rfl

end Built

mutual

/-- The paths of all binary references of a unit and of the units that it refers to. -/
def SourceUnit.binaryPaths : SourceUnit → List String
  | .mk _ _ references => Reference.binaryPathsOfAll references

def Reference.binaryPathsOfAll : List Reference → List String
  | [] => []
  | r :: rest => r.binaryPaths ++ Reference.binaryPathsOfAll rest

def Reference.binaryPaths : Reference → List String
  | .unit u => u.binaryPaths
  | .binary path => [path]

end

namespace Materialize

variable {files kept : Files}

mutual

theorem visit_reads : ∀ (u : SourceUnit) (stack : List String) (p : Pass),
    (∀ path ∈ u.binaryPaths, kept.read path = files.read path) →
      visit kept u stack p = visit files u stack p
  | .mk name sources references, stack, p, h => by
    rw [SourceUnit.binaryPaths] at h
    rw [visit, visit, visitAll_reads references (stack ++ [name]) p h]

theorem visitAll_reads : ∀ (references : List Reference) (stack : List String) (p : Pass),
    (∀ path ∈ Reference.binaryPathsOfAll references, kept.read path = files.read path) →
      visitAll kept references stack p = visitAll files references stack p
  | [], stack, p, h => by rw [visitAll, visitAll]
  | r :: rest, stack, p, h => by
    rw [Reference.binaryPathsOfAll, List.forall_mem_append] at h
    rw [visitAll, visitAll, visitReference_reads r stack p h.1]
    cases visitReference files r stack p with
    | mk result between =>
      cases result with
      | error e => rfl
      | ok _ => exact visitAll_reads rest stack between h.2

theorem visitReference_reads : ∀ (r : Reference) (stack : List String) (p : Pass),
    (∀ path ∈ r.binaryPaths, kept.read path = files.read path) →
      visitReference kept r stack p = visitReference files r stack p
  | .unit u, stack, p, h => by
    rw [Reference.binaryPaths] at h
    rw [visitReference, visitReference, visit_reads u stack p h]
  | .binary path, stack, p, h => by
    have hread : kept.read path = files.read path :=
      h path (by rw [Reference.binaryPaths]; exact List.mem_singleton_self path)
    have hload : load kept (binaryName path) path = load files (binaryName path) path := by
      rw [load, load, hread]
    have hadd : addBinary kept (binaryName path) path p =
        addBinary files (binaryName path) path p := by
      rw [addBinary, addBinary, hload]
    rw [visitReference, visitReference]
    simp only [hadd]

end

theorem materialize_reads (order : Order) {u : SourceUnit} (store : Store)
    (h : ∀ path ∈ u.binaryPaths, kept.read path = files.read path) :
    materialize order kept store u = materialize order files store u := by
  rw [materialize, materialize, visit_reads u [] _ h]

end Materialize

/-- Units that parse alike and have the same closure get the same verdicts. -/
theorem Reporter.evaluate_congr {r : Reporter} {world : World} {u v : SourceUnit}
    (hsources : v.sources = u.sources) (hclosure : r.closure? world v = r.closure? world u)
    (method : MethodRef) : (r.evaluate world v method).2 = (r.evaluate world u method).2 := by
  have hparse : v.parse = u.parse := by rw [SourceUnit.parse, SourceUnit.parse, hsources]
  have hsite : v.site? method = u.site? method := by
    rw [SourceUnit.site?, SourceUnit.site?, hparse]
  rw [evaluate_eq, evaluate_eq, subject, subject, hparse, hsite, hclosure]

/-- A unit that refers to the files of images has the closure that it has with the units in their
place, and its methods have the same verdicts. -/
theorem built_references {order : Materialize.Order} {files kept : Files} {u : SourceUnit}
    {closure : Closure} {after : Store} {directory : String}
    (hunits : ∀ r ∈ u.references, ∃ v, r = .unit v)
    (h : materialize order files .empty u = (.ok closure, after))
    (hdirect : ∀ name ∈ closure.names, name ≠ u.name → ∃ r ∈ u.references, r.name = name)
    (hkept : ∀ name stored, closure.get? name = some stored → name ≠ u.name →
      kept.read (Path.join directory (Image.fileName name)) = .ok stored.bytes) :
    (∀ order', (materialize order' kept .empty (u.built directory)).1 = .ok closure) ∧
    ((∀ path ∈ u.binaryPaths, kept.read path = files.read path) →
      ∀ (r : Reporter) (method : MethodRef),
        (r.evaluate ⟨kept, .empty⟩ (u.built directory) method).2 =
          (r.evaluate ⟨kept, .empty⟩ u method).2) := by
  have hbuilt := materialize_built hunits h hdirect hkept
  refine ⟨hbuilt, fun hread r method => ?_⟩
  refine Reporter.evaluate_congr (u := u) (v := u.built directory) rfl ?_ method
  rw [Reporter.closure?, Reporter.closure?]
  simp only [ite_self]
  rw [hbuilt, Materialize.materialize_reads _ .empty hread,
    Materialize.materialize_anyOrder h]

def sheetUnit : SourceUnit :=
  .mk "Sheet" [⟨"s.tdl", "class Sheet \x7b fn size() \x7b return 4; \x7d \x7d"⟩] []

def foldUnit : SourceUnit :=
  .mk "Fold" [⟨"f.tdl", "class Fold \x7b fn half() \x7b return Sheet.size() / 2; \x7d \x7d"⟩]
    [.unit sheetUnit]

def bookUnit : SourceUnit :=
  .mk "Book" [⟨"b.tdl", "class Book \x7b [SetUp] fn open() \x7b \x7d
    [Test] fn read() \x7b Assert.AreEqual(2, Fold.half()); \x7d
    [TearDown] fn shut() \x7b \x7d \x7d"⟩] [.unit foldUnit, .unit sheetUnit]

/-- The images of a unit in files of the working directory. -/
def builtFiles (u : SourceUnit) : Files :=
  match (materialize .sorted .fresh .empty u).1 with
  | .ok closure => closure.images.entries.foldl (fun files e =>
      files.putFile ["work", Image.fileName e.1] e.2.bytes false) .fresh
  | .error _ => .fresh

theorem bookUnit_built : ((materialize .sorted .fresh .empty bookUnit).1.toOption.any fun closure =>
    decide (closure.names = ["Book", "Fold", "Sheet"]) &&
      decide (∀ e ∈ closure.images.entries, (builtFiles bookUnit).read
        (Path.join "." (Image.fileName e.1)) = .ok e.2.bytes)) = true := by
  decide +kernel

theorem bookUnit_kept : ∃ closure after,
    materialize .sorted .fresh .empty bookUnit = (.ok closure, after) ∧
    closure.names = ["Book", "Fold", "Sheet"] ∧ closure.KeptIn (builtFiles bookUnit) "." := by
  have hcheck := bookUnit_built
  cases hrun : materialize .sorted .fresh .empty bookUnit with
  | mk result after =>
    rw [hrun] at hcheck
    cases result with
    | error e => cases hcheck
    | ok closure =>
      simp only [Except.toOption, Option.any_some, Bool.and_eq_true, decide_eq_true_eq] at hcheck
      exact ⟨closure, after, rfl, hcheck.1,
        fun name stored hstored => hcheck.2 (name, stored) (NameMap.mem_of_get? hstored)⟩

theorem built_references_book : ∃ closure after,
    materialize .sorted .fresh .empty bookUnit = (.ok closure, after) ∧
    closure.names = ["Book", "Fold", "Sheet"] ∧
    (materialize .sorted (builtFiles bookUnit) .empty (bookUnit.built ".")).1 = .ok closure ∧
    ∀ (r : Reporter) (method : MethodRef),
      (r.evaluate ⟨builtFiles bookUnit, .empty⟩ (bookUnit.built ".") method).2 =
        (r.evaluate ⟨builtFiles bookUnit, .empty⟩ bookUnit method).2 := by
  obtain ⟨closure, after, hrun, hnames, hkept⟩ := bookUnit_kept
  have hunits : ∀ r ∈ bookUnit.references, ∃ v, r = .unit v := by
    intro r hr
    rcases List.mem_pair.1 hr with rfl | rfl
    · exact ⟨foldUnit, rfl⟩
    · exact ⟨sheetUnit, rfl⟩
  have hdirect : ∀ name ∈ closure.names, name ≠ bookUnit.name →
      ∃ r ∈ bookUnit.references, r.name = name := by
    rw [hnames]
    intro name hname hother
    simp only [List.mem_cons, List.not_mem_nil, or_false] at hname
    rcases hname with rfl | rfl | rfl
    · exact absurd rfl hother
    · exact ⟨.unit foldUnit, List.mem_cons_self, rfl⟩
    · exact ⟨.unit sheetUnit, List.mem_cons_of_mem _ List.mem_cons_self, rfl⟩
  obtain ⟨hbuilt, hverdicts⟩ := built_references hunits hrun hdirect
    fun name stored hstored _ => hkept name stored hstored
  exact ⟨closure, after, hrun, hnames, hbuilt .sorted, hverdicts fun path hpath => by cases hpath⟩

end TestBench
