import TestBench.Proofs.BuiltReferences
import TestBench.Proofs.ScratchTraces

/-!
Closures that are written to an empty directory. Each image goes into a new file,
which nothing else is written to, and the name of the file says what the image
was called; so whoever lists the directory finds the names of the closure and
reads the bytes that the closure has. Nothing is left to tell the two resolvers
apart: they fail alike, and never because a file is missing or was changed.
-/
namespace TestBench

theorem Image.fileName_injective : Function.Injective Image.fileName := by
  intro name other h
  have htext := congrArg String.toList h
  rw [toList_fileName, toList_fileName] at htext
  exact String.toList_inj.1 (List.append_cancel_right htext)

/-- The keys of a map are in order, so it is enough to know which they are. -/
theorem NameMap.keys_eq {α β : Type} {m : NameMap α} {m' : NameMap β}
    (h : ∀ key, key ∈ m.keys ↔ key ∈ m'.keys) : m.keys = m'.keys := by
  have hsorted : m.keys.Pairwise (· < ·) := List.pairwise_map.2 m.sorted
  have hsorted' : m'.keys.Pairwise (· < ·) := List.pairwise_map.2 m'.sorted
  have hperm : m.keys.Perm m'.keys :=
    (List.perm_ext_iff_of_nodup (hsorted.imp String.ne_of_lt) (hsorted'.imp String.ne_of_lt)).2 h
  exact hperm.eq_of_pairwise (fun _ _ _ _ hab hba => absurd (String.lt_trans hab hba)
    (String.lt_irrefl _)) hsorted hsorted'

namespace Files

variable {files written : Files} {path : String} {place : Location}

theorem list_eq_ok {found : List String} : files.list path = .ok found ↔ ∃ place a,
    files.locate path = .ok place ∧ files.entry? place = some (.directory a) ∧
      found = files.namesAt place := by
  unfold list
  cases hplace : files.locate path with
  | error e => simp [bind, Except.bind]
  | ok place =>
    simp only [bind, Except.bind, Except.ok.injEq]
    cases hentry : files.entry? place with
    | none => simp [hentry]
    | some e => cases e <;> simp [hentry, eq_comm]

theorem mem_namesAt {file : String} :
    file ∈ files.namesAt place ↔ files.entry? (place ++ [file]) ≠ none := by
  rw [entry?_eq, FileTree.at?, FileTree.find?_concat, namesAt]
  cases files.root.find? place with
  | none => simp
  | some t => simp [FileTree.child?]

theorem read_of_locate {n : Nat} (hplace : files.locate path = .ok place)
    (hentry : files.entry? place = some (.file n)) : files.read path = .ok (files.bytesOf n) := by
  simp only [read, find, hplace, bind, Except.bind, hentry]

/-- The directory that a path leads to has one file for each of the images, and nothing else. -/
structure KeepsImages (files : Files) (path : String) (place : Location)
    (images : List (String × StoredImage)) : Prop where
  located : files.locate path = .ok place
  directory : ∃ a, files.entry? place = some (.directory a)
  held : ∀ e ∈ images, files.locate (Path.join path (Image.fileName e.1)) =
      .ok (place ++ [Image.fileName e.1]) ∧
    ∃ n < files.nextNumber, files.entry? (place ++ [Image.fileName e.1]) = some (.file n) ∧
      files.bytesOf n = e.2.bytes
  apart : ∀ e ∈ images, ∀ other ∈ images, files.entry? (place ++ [Image.fileName e.1]) =
    files.entry? (place ++ [Image.fileName other.1]) → e.1 = other.1
  only : ∀ below, below ≠ [] → files.entry? (place ++ below) ≠ none →
    ∃ e ∈ images, below = [Image.fileName e.1]

namespace KeepsImages

variable {images : List (String × StoredImage)}

theorem start (h : files.list path = .ok []) : ∃ place, files.KeepsImages path place [] := by
  obtain ⟨place, a, hplace, hdirectory, hnone⟩ := list_eq_ok.1 h
  refine ⟨place, hplace, ⟨a, hdirectory⟩, by simp, by simp, fun below hbelow hentry => ?_⟩
  cases below with
  | nil => exact absurd rfl hbelow
  | cons name rest =>
    rw [List.append_cons] at hentry
    have hname : name ∈ files.namesAt place := mem_namesAt.2 (FileTree.at?_above hentry)
    rw [← hnone] at hname
    cases hname

/-- An image with a name of its own gets a file of its own. -/
theorem write (h : files.KeepsImages path place images) {name : String} {stored : StoredImage}
    (hvalid : Image.isValidName name = true) (hnew : name ∉ images.map (·.1))
    (hwrite : files.write (Path.join path (Image.fileName name)) stored.bytes = .ok written) :
    written.KeepsImages path place (images ++ [(name, stored)]) := by
  obtain ⟨a, hdirectory⟩ := h.directory
  have hnone : files.entry? (place ++ [Image.fileName name]) = none := by
    by_contra hthere
    obtain ⟨e, he, hfile⟩ := h.only _ (List.cons_ne_nil _ _) hthere
    have hname : name = e.1 := Image.fileName_injective (List.cons.inj hfile).1
    exact hnew (hname ▸ List.mem_map_of_mem he)
  have hother : ∀ e ∈ images, place ++ [Image.fileName e.1] ≠ place ++ [Image.fileName name] := by
    intro e he hsame
    have hfile := (List.cons.inj (List.append_cancel_left hsame)).1
    exact hnew (Image.fileName_injective hfile ▸ List.mem_map_of_mem he)
  obtain ⟨hlocated, ⟨-, rfl⟩ | ⟨n, hthere, -⟩⟩ :=
    write_fileName h.located hdirectory hvalid (fun e he => by simp [hnone] at he) hwrite
  · have hentry := entry?_create hdirectory (Image.fileName name) (files.allowed 0o666) stored.bytes
    have hgrown := grown_create hdirectory hnone (files.allowed 0o666) stored.bytes
    have hcontent := content?_create files (place ++ [Image.fileName name]) (files.allowed 0o666)
      stored.bytes
    have hlast := (hentry _).trans (if_pos rfl)
    have hold : ∀ e ∈ images, Files.entry? (files.create (place ++ [Image.fileName name])
        (files.allowed 0o666) stored.bytes) (place ++ [Image.fileName e.1]) =
          files.entry? (place ++ [Image.fileName e.1]) := fun e he =>
      (hentry _).trans (if_neg (hother e he))
    have hfresh : ∀ e ∈ images,
        files.entry? (place ++ [Image.fileName e.1]) ≠ some (.file files.nextNumber) := by
      intro e he hsame
      obtain ⟨-, n, hn, hfile, -⟩ := h.held e he
      obtain rfl := FileEntry.file.inj (Option.some.inj (hfile.symm.trans hsame))
      exact Nat.lt_irrefl _ hn
    refine ⟨locateWith_grown hgrown rfl h.located, ⟨a, ?_⟩, ?_, ?_, ?_⟩
    · rw [hentry, if_neg (by simp), hdirectory]
    · rw [List.forall_mem_append, List.forall_mem_singleton]
      refine ⟨fun e he => ?_, locateWith_grown hgrown rfl hlocated, files.nextNumber,
        Nat.lt_succ_self _, hlast, ?_⟩
      · obtain ⟨hplace, n, hn, hfile, hbytes⟩ := h.held e he
        refine ⟨locateWith_grown hgrown rfl hplace, n, Nat.lt_succ_of_lt hn,
          (hold e he).trans hfile, ?_⟩
        rw [bytesOf, hcontent, if_neg (Nat.ne_of_lt hn), ← hbytes, bytesOf]
      · rw [bytesOf, hcontent, if_pos rfl]
        rfl
    · intro e he other hsome hsame
      rw [List.mem_append, List.mem_singleton] at he hsome
      rcases he with he | rfl <;> rcases hsome with hsome | rfl
      · rw [hold e he, hold other hsome] at hsame
        exact h.apart e he other hsome hsame
      · rw [hold e he, hlast] at hsame
        exact absurd hsame (hfresh e he)
      · rw [hold other hsome, hlast] at hsame
        exact absurd hsame.symm (hfresh other hsome)
      · rfl
    · intro below hbelow hthere
      rw [hentry] at hthere
      split at hthere
      · next hfile =>
        refine ⟨(name, stored), List.mem_append_right _ (List.mem_singleton_self _), ?_⟩
        exact List.append_cancel_left hfile
      · obtain ⟨e, he, hfile⟩ := h.only below hbelow hthere
        exact ⟨e, List.mem_append_left _ he, hfile⟩
  · rw [hnone] at hthere
    cases hthere

theorem persist {area : Scratch} {done : List (String × StoredImage)}
    (h : files.KeepsImages area.path place done) (hnodup : ((done ++ images).map (·.1)).Nodup)
    (hpersist : area.persist images files = (written, .ok ())) :
    written.KeepsImages area.path place (done ++ images) := by
  induction images generalizing files done with
  | nil =>
    obtain ⟨rfl, -⟩ := Prod.mk.inj hpersist
    rwa [List.append_nil]
  | cons image rest ih =>
    rw [Scratch.persist] at hpersist
    split at hpersist
    · next hvalid =>
      split at hpersist
      · cases hpersist
      · next next hwrite =>
        have hnew : image.1 ∉ done.map (·.1) := by
          rw [List.map_append, List.map_cons] at hnodup
          exact fun hmem => (List.nodup_append.1 hnodup).2.2 _ hmem _ List.mem_cons_self rfl
        rw [List.append_cons] at hnodup ⊢
        exact ih (h.write hvalid hnew hwrite) hnodup hpersist
    · cases hpersist

section Reading

variable (h : files.KeepsImages path place images)

include h

theorem read {name : String} {stored : StoredImage} (hmem : (name, stored) ∈ images) :
    files.read (Path.join path (Image.fileName name)) = .ok stored.bytes := by
  obtain ⟨hplace, n, -, hfile, hbytes⟩ := h.held _ hmem
  rw [read_of_locate hplace hfile, hbytes]

theorem list : ∃ found, files.list path = .ok found ∧
    ∀ file, file ∈ found ↔ ∃ e ∈ images, file = Image.fileName e.1 := by
  obtain ⟨a, hdirectory⟩ := h.directory
  refine ⟨_, list_eq_ok.2 ⟨place, a, h.located, hdirectory, rfl⟩, fun file => ?_⟩
  rw [mem_namesAt]
  constructor
  · intro hthere
    obtain ⟨e, he, hfile⟩ := h.only _ (List.cons_ne_nil _ _) hthere
    exact ⟨e, he, (List.cons.inj hfile).1⟩
  · rintro ⟨e, he, rfl⟩
    obtain ⟨-, n, -, hfile, -⟩ := h.held e he
    rw [hfile]
    exact Option.some_ne_none _

end Reading

end KeepsImages

end Files

namespace Resolver

variable {name : String} {bytes : Bytes} {image : Image} {fault : ResolutionFault}

theorem decoded_eq_ok : decoded name bytes = .ok image ↔
    Image.decode bytes = .ok image ∧ image.name = name := by
  unfold decoded
  cases Image.decode bytes with
  | error defect => simp
  | ok found =>
    simp only [Except.ok.injEq]
    split
    · next hname =>
      rw [Except.ok.injEq, iff_self_and]
      rintro rfl
      exact hname
    · next hname =>
      constructor
      · rintro ⟨⟩
      · rintro ⟨rfl, h⟩
        exact absurd h hname

theorem decoded_eq_error (h : decoded name bytes = .error fault) :
    (∃ defect, fault = .corrupt name defect) ∨ ∃ found, fault = .misnamed name found := by
  unfold decoded at h
  split at h
  · next defect _ => exact Or.inl ⟨defect, (Except.error.inj h).symm⟩
  · next found _ =>
    split at h
    · cases h
    · exact Or.inr ⟨found.name, (Except.error.inj h).symm⟩

end Resolver

/-- In an empty directory a closure is resolved alike from itself and from its files, and only the
bytes of a member can be wrong. -/
theorem persisted_resolves_alike {area : Scratch} {files written : Files} {closure : Closure}
    (hempty : files.list area.path = .ok [])
    (hpersist : area.persist closure.images.entries files = (written, .ok ()))
    (hsealed : Store.Sealed closure.images) :
    (∃ place, written.KeepsImages area.path place closure.images.entries) ∧
      ∃ r, Resolver.ofDirectory written area.path = .ok r ∧ r.index = closure.names ∧
        ∀ name, r.resolve name = (Resolver.ofClosure written area.path closure).resolve name ∧
          (∀ fault, r.resolve name = .error fault → fault = .notInClosure name ∨
            (∃ defect, fault = .corrupt name defect) ∨ ∃ found, fault = .misnamed name found) ∧
          ∀ image, r.resolve name = .ok image ↔ ∃ stored, closure.get? name = some stored ∧
            Image.decode stored.bytes = .ok image ∧ image.name = name := by
  obtain ⟨place, hstart⟩ := Files.KeepsImages.start hempty
  have hnodup : (closure.images.entries.map (·.1)).Nodup :=
    List.Pairwise.imp String.ne_of_lt (List.pairwise_map.2 closure.images.sorted)
  have hkeeps := hstart.persist hnodup hpersist
  rw [List.nil_append] at hkeeps
  obtain ⟨found, hlist, hfound⟩ := hkeeps.list
  have hvalid := Scratch.valid_of_persist hpersist
  have hread : ∀ name stored, closure.get? name = some stored →
      written.read (Path.join area.path (Image.fileName name)) = .ok stored.bytes :=
    fun name stored hstored => hkeeps.read (NameMap.mem_of_get? hstored)
  have hindex : ∀ name, name ∈ (Resolver.ofNames written area.path found).index ↔
      name ∈ closure.names := fun name => Resolver.mem_index_ofNames hvalid hfound
  refine ⟨⟨place, hkeeps⟩, Resolver.ofNames written area.path found, ?_,
    NameMap.keys_eq hindex, fun name => ?_⟩
  · rw [Resolver.ofDirectory, hlist]
  · have hresolve := Resolver.resolve_ofNames hread hread hvalid hsealed hfound name
    refine ⟨hresolve, ?_⟩
    cases hstored : closure.get? name with
    | some stored =>
      rw [hresolve, Resolver.resolve_ofClosure_of_read hstored (hread name stored hstored)
        (hsealed name stored hstored)]
      refine ⟨fun fault hfault => Or.inr (Resolver.decoded_eq_error hfault), fun image => ?_⟩
      rw [Resolver.decoded_eq_ok]
      simp
    | none =>
      have hname : ¬ (Resolver.ofNames written area.path found).index.contains name = true := by
        rw [List.contains_iff_mem, hindex, Closure.names, NameMap.mem_keys]
        rintro ⟨stored, hsome⟩
        cases hstored.symm.trans hsome
      rw [Resolver.resolve, if_neg hname]
      simp [eq_comm]

theorem Store.sealed_empty : Store.empty.Sealed := by
  intro name stored hstored
  cases hstored

theorem Store.Sealed.add {s : Store} (h : s.Sealed) (name : String) (bytes : Bytes) :
    (s.add (.ofBytes name bytes)).Sealed := by
  intro other stored hstored
  rw [Store.add, NameMap.get?_insert] at hstored
  split at hstored
  · obtain rfl := Option.some.inj hstored
    rfl
  · exact h other stored hstored

/-- Names with dots at either end and with the extension in them; one member holds the image of
another one, and two hold nothing that is an image. -/
def dottedClosure : Closure where
  entry := "App"
  images :=
    let app := Image.bytes ⟨"App", [], []⟩
    (((Store.empty.add (.ofBytes "App" app)).add (.ofBytes "App.tdi" app)).add
      (.ofBytes "..." [0x21])).add (.ofBytes ".tdi." [])

def temporaryArea : Scratch := ⟨"/tmp/", Files.temporary⟩

theorem dottedClosure_sealed : Store.Sealed dottedClosure.images :=
  (((Store.sealed_empty.add _ _).add _ _).add _ _).add _ _

theorem persisted_resolves_alike_dotted :
    Files.fresh.list temporaryArea.path = .ok [] ∧ Store.Sealed dottedClosure.images ∧
      ∃ written r, temporaryArea.persist dottedClosure.images.entries .fresh =
          (written, .ok ()) ∧
        Resolver.ofDirectory written temporaryArea.path = .ok r ∧
        r.index = dottedClosure.names ∧ ∃ image, r.resolve "App" = .ok image := by
  have hempty : Files.fresh.list temporaryArea.path = .ok [] := by decide +kernel
  have hwritten : (temporaryArea.persist dottedClosure.images.entries .fresh).2 = .ok () := by
    decide +kernel
  have hdecodes : ((dottedClosure.get? "App").any fun stored =>
      (Image.decode stored.bytes).toOption.any fun image => image.name = "App") = true := by
    decide +kernel
  obtain ⟨stored, hstored, hdecodes⟩ := (Option.any_eq_true _ _).1 hdecodes
  obtain ⟨image, himage, hname⟩ := (Option.any_eq_true _ _).1 hdecodes
  obtain ⟨written, hpersist⟩ : ∃ written,
      temporaryArea.persist dottedClosure.images.entries .fresh = (written, .ok ()) := by
    generalize temporaryArea.persist dottedClosure.images.entries .fresh = p at hwritten ⊢
    exact ⟨p.1, Prod.ext rfl hwritten⟩
  obtain ⟨-, r, hdirectory, hindex, hresolve⟩ :=
    persisted_resolves_alike hempty hpersist dottedClosure_sealed
  refine ⟨hempty, dottedClosure_sealed, written, r, hpersist, hdirectory, hindex, image, ?_⟩
  exact ((hresolve "App").2.2 image).2
    ⟨stored, hstored, Reporter.eq_ok_of_toOption himage, of_decide_eq_true hname⟩

end TestBench
