import TestBench.Programs.Directories
import TestBench.Proofs.ExternalVerdicts
import TestBench.Proofs.MadeDirectories

/-!
What is left behind when something was run in a scratch area. An area is made
where nothing was, all that is written goes into it, and it is removed with
everything inside on every way out. So all files are as they were, and of the
directories only the root of the scratch areas and those above it may be new.
-/
namespace TestBench

namespace Files

open Trail

/-- No number is given to a file that another one has. -/
def Numbered (files : Files) : Prop :=
  ∀ place n, files.entry? place = some (.file n) → n < files.nextNumber

section Numbers

variable {files : Files}

theorem Numbered.put (h : files.Numbered) {e : FileEntry} (place : Location)
    (he : ∀ n, e = .file n → n < files.nextNumber) : (files.put place e).Numbered := by
  intro q n hq
  rcases FileTree.at?_put_cases hq with hnew | hold | hempty
  · exact he n hnew.symm
  · exact h q n hold
  · cases hempty

theorem Numbered.create (h : files.Numbered) (place : Location) (mode : Nat) (bytes : Bytes) :
    (files.create place mode bytes).Numbered := by
  intro q n hq
  change n < files.nextNumber + 1
  rcases FileTree.at?_put_cases hq with hnew | hold | hempty
  · obtain rfl := FileEntry.file.inj hnew
    exact Nat.lt_succ_self _
  · exact Nat.lt_succ_of_lt (h q n hold)
  · cases hempty

theorem fresh_numbered : fresh.Numbered := by
  unfold fresh
  refine Numbered.create (List.foldlRecOn (motive := Numbered) _ _ ?_ ?_) _ _ _
  · intro place n h
    cases place with
    | nil => cases h
    | cons name rest => cases h
  · rintro files hfiles ⟨place, e⟩ hmem
    refine hfiles.put place ?_
    rintro n rfl
    simp at hmem

end Numbers

/-- The root is always there. -/
theorem ne_nil_of_absent {files : Files} {place : Location} (h : files.entry? place = none) :
    place ≠ [] := by
  rintro rfl
  cases h

/-- The same entry is at a place, and if it is a file, it still holds the same. -/
def SameAt (before after : Files) (place : Location) : Prop :=
  after.entry? place = before.entry? place ∧
    ∀ n, before.entry? place = some (.file n) → after.content? n = before.content? n

theorem SameAt.trans {before between after : Files} {place : Location}
    (h : SameAt before between place) (hmore : SameAt between after place) :
    SameAt before after place :=
  ⟨hmore.1.trans h.1, fun n hn => (hmore.2 n (h.1.trans hn)).trans (h.2 n hn)⟩

/-- Everything that was there is as it was. New are only directories that the root or a path above
it leads to, and none if the root was there. -/
structure LeavesNoTrace (root : Option String) (before after : Files) : Prop where
  kept : ∀ place, before.entry? place ≠ none → SameAt before after place
  new : ∀ place, before.entry? place = none → after.entry? place ≠ none →
    (∃ a, after.entry? place = some (.directory a)) ∧
      ∃ directory path, root = some directory ∧ Path.Above path directory ∧
        after.locate path = .ok place
  there : (∀ directory, root = some directory → before.isDirectory directory = true) →
    ∀ place, SameAt before after place

theorem LeavesNoTrace.refl (root : Option String) (files : Files) :
    LeavesNoTrace root files files where
  kept _ _ := ⟨rfl, fun _ _ => rfl⟩
  new _ hnone hthere := absurd hnone hthere
  there _ _ := ⟨rfl, fun _ _ => rfl⟩

/-- The files with the root of the scratch areas, as far as it can be made. -/
def withRoot (files : Files) (root : Option String) : Files :=
  match root with
  | none => files
  | some directory => (files.ensureDirectory directory).1

section Rooted

variable {files after : Files} {root : Option String}

theorem withRoot_cases (files : Files) (root : Option String) : files.withRoot root = files ∨
    ∃ directory, root = some directory ∧ MakesWay directory files (files.withRoot root) := by
  cases root with
  | none => exact Or.inl rfl
  | some directory => exact Or.inr ⟨directory, rfl, MakesWay.makeDirectories _ _ _⟩

theorem withRoot_of_there
    (h : ∀ directory, root = some directory → files.isDirectory directory = true) :
    files.withRoot root = files := by
  cases root with
  | none => rfl
  | some directory => exact ensureDirectory_of_isDirectory (h directory rfl)

theorem Numbered.withRoot (h : files.Numbered) : (files.withRoot root).Numbered := by
  rcases withRoot_cases files root with hsame | ⟨directory, -, hway⟩
  · rw [hsame]
    exact h
  · intro place n hentry
    rw [hway.nextNumber]
    rcases hway.new place with hsame | ⟨-, ⟨a, hdirectory⟩, -⟩
    · exact h place n (hsame.symm.trans hentry)
    · rw [hdirectory] at hentry
      cases hentry

/-- It is enough that nothing has changed since the root was made. -/
theorem LeavesNoTrace.of_same (h : ∀ place, SameAt (files.withRoot root) after place)
    (hworking : after.workingDirectory = (files.withRoot root).workingDirectory) :
    LeavesNoTrace root files after := by
  have hgrown : (files.withRoot root).root.Grown after.root := .of_at?_eq fun place => (h place).1
  rcases withRoot_cases files root with hsame | ⟨directory, hroot, hway⟩
  · rw [hsame] at h
    refine ⟨fun place _ => h place, fun place hnone hthere => ?_, fun _ => h⟩
    rw [(h place).1] at hthere
    exact absurd hnone hthere
  · refine ⟨fun place hthere => ?_, fun place hnone hthere => ?_, fun hthere => ?_⟩
    · rcases hway.new place with hsame | ⟨hnone, -⟩
      · refine SameAt.trans ⟨hsame, fun n _ => ?_⟩ (h place)
        rw [content?, hway.contents, content?]
      · exact absurd hnone hthere
    · rcases hway.new place with hsame | ⟨-, ⟨a, ha⟩, path, habove, hplace⟩
      · rw [(h place).1, hsame] at hthere
        exact absurd hnone hthere
      · exact ⟨⟨a, (h place).1.trans ha⟩, directory, path, hroot, habove,
          locateWith_grown hgrown hworking hplace⟩
    · rw [withRoot_of_there hthere] at h
      exact h

end Rooted

section Contents

theorem content?_keep (files : Files) (n m : Nat) (c : FileContent) :
    (files.keep n c).content? m = if m = n then some c else files.content? m := by
  unfold keep content?
  by_cases hm : m = n
  · rw [List.lookup_cons, if_pos hm, hm, beq_self_eq_true]
  · rw [List.lookup_cons, if_neg hm, beq_eq_false_iff_ne.2 hm]
    simp only
    induction files.contents with
    | nil => rfl
    | cons kept rest ih =>
      by_cases hkept : kept.1 = n
      · rw [List.filter_cons_of_neg (by simpa using hkept), ih, List.lookup_cons,
          beq_eq_false_iff_ne.2 (hkept ▸ hm)]
      · rw [List.filter_cons_of_pos (by simpa using hkept), List.lookup_cons, List.lookup_cons, ih]

end Contents

/-- A path and a path into it are alike up to the slash between them. -/
theorem toList_join_eq {path file : String} (hpath : path.toList ≠ [])
    (hfile : '/' ∉ file.toList) : ∃ base,
    (Path.join path file).toList = base ++ '/' :: file.toList ∧
      (path.toList = base ∨ path.toList = base ++ ['/']) := by
  rw [Path.toList_join hfile, if_neg hpath]
  split
  · next hlast =>
    exact ⟨_, rfl, Or.inr (List.dropLast_append_getLast? _ hlast).symm⟩
  · exact ⟨_, rfl, Or.inl rfl⟩

/-- A name in a directory means what is there under that name, unless it is a link. -/
theorem locate_join {files : Files} {path file : String} {place other : Location}
    {a : Attributes} (hplace : files.locate path = .ok place)
    (hdirectory : files.entry? place = some (.directory a))
    (hfile : '/' ∉ file.toList) (hname : ∀ cs, cs.length ≤ 2 → file.toList ≠ cs)
    (hlink : (files.root.at? (place ++ [file])).bind FileEntry.target? = none)
    (h : files.locate (Path.join path file) = .ok other) : other = place ++ [file] := by
  obtain ⟨⟨-, hpath, -⟩, hleads⟩ := locateWith_eq_ok.1 hplace
  obtain ⟨-, hall⟩ := locateWith_eq_ok.1 h
  obtain ⟨base, hjoin, hbase⟩ := toList_join_eq hpath hfile
  have hnear :
      Leads files.root true linkLimit (files.start path) (Path.splitAt '/' base) place := by
    rcases hbase with hbase | hbase
    · rwa [hbase] at hleads
    · rw [hbase, Path.splitAt_append] at hleads
      exact hleads.of_slash
  have hstart : files.start (Path.join path file) = files.start path := by
    rw [start, start, hjoin]
    rcases hbase with hbase | hbase
    · rw [← hbase, Path.isAbsolute_append hpath]
    · rw [List.append_cons, ← hbase, Path.isAbsolute_append hpath]
  rw [hstart, hjoin, Path.splitAt_append, Path.splitAt_of_not_mem hfile] at hall
  obtain ⟨links, hrest⟩ := hnear.of_append hall
  rw [← String.ofList_toList (s := file)] at hlink ⊢
  exact hrest.name hdirectory (hname _ (by decide)) (hname _ (by decide)) (hname _ (by decide))
    hlink

section Creating

variable {files : Files} {above : Location} {a : Attributes}

/-- A file that is made in a directory is all that is new. -/
theorem entry?_create (habove : files.entry? above = some (.directory a)) (name : String)
    (mode : Nat) (bytes : Bytes) (q : Location) :
    Files.entry? (files.create (above ++ [name]) mode bytes) q =
      if q = above ++ [name] then some (.file files.nextNumber) else files.entry? q :=
  FileTree.at?_put (ne_of_eq_of_ne habove (Option.some_ne_none _)) q

theorem grown_create (habove : files.entry? above = some (.directory a)) {name : String}
    (hnew : files.entry? (above ++ [name]) = none) (mode : Nat) (bytes : Bytes) :
    files.root.Grown (files.create (above ++ [name]) mode bytes).root := by
  have hentry := entry?_create habove name mode bytes
  intro q
  by_cases hq : q = above ++ [name]
  · exact Or.inr ⟨hq ▸ hnew, _, (hentry q).trans (if_pos hq), rfl⟩
  · exact Or.inl ((hentry q).trans (if_neg hq))

theorem content?_create (files : Files) (place : Location) (mode : Nat) (bytes : Bytes) (n : Nat) :
    (files.create place mode bytes).content? n =
      if n = files.nextNumber then some ⟨bytes, mode, files.now⟩ else files.content? n :=
  content?_keep files _ n _

/-- What is written under the name of an image in a directory goes into a file of that name, as
long as there are only files under such names. -/
theorem write_fileName {path name : String} {place : Location} {bytes : Bytes} {written : Files}
    (hplace : files.locate path = .ok place) (hdirectory : files.entry? place = some (.directory a))
    (hvalid : Image.isValidName name = true)
    (hfiles : ∀ e, files.entry? (place ++ [Image.fileName name]) = some e → ∃ n, e = .file n)
    (hwrite : files.write (Path.join path (Image.fileName name)) bytes = .ok written) :
    files.locate (Path.join path (Image.fileName name)) = .ok (place ++ [Image.fileName name]) ∧
      ((files.entry? (place ++ [Image.fileName name]) = none ∧ written =
          files.create (place ++ [Image.fileName name]) (files.allowed 0o666) bytes) ∨
        ∃ n, files.entry? (place ++ [Image.fileName name]) = some (.file n) ∧
          written = files.rewrite n bytes) := by
  unfold Files.write at hwrite
  cases hfound : files.locate (Path.join path (Image.fileName name)) with
  | error e =>
    rw [hfound] at hwrite
    cases hwrite
  | ok found =>
    obtain rfl : found = place ++ [Image.fileName name] := by
      refine locate_join hplace hdirectory (Image.not_mem_fileName hvalid)
        (fun cs hcs => Image.fileName_ne hvalid (Nat.le_trans hcs (by decide))) ?_ hfound
      rw [← entry?_eq]
      cases hentry : files.entry? (place ++ [Image.fileName name]) with
      | none => rfl
      | some e =>
        obtain ⟨n, rfl⟩ := hfiles e hentry
        rfl
    refine ⟨rfl, ?_⟩
    simp only [hfound, bind, Except.bind] at hwrite
    cases hentry : files.entry? (place ++ [Image.fileName name]) with
    | none =>
      rw [hentry] at hwrite
      exact Or.inl ⟨rfl, (Except.ok.inj hwrite).symm⟩
    | some e =>
      obtain ⟨n, rfl⟩ := hfiles e hentry
      rw [hentry] at hwrite
      exact Or.inr ⟨n, rfl, (Except.ok.inj hwrite).symm⟩

end Creating

end Files

namespace Scratch

open Files

variable {area : Scratch} {before files made written : Files}

/-- Everything since there was an area has happened inside it: where nothing was is a directory,
with no links and none of the files from before. -/
structure Filling (area : Scratch) (before files : Files) : Prop where
  path : area.path.toList ≠ [] ∧ area.path.toList.getLast? ≠ some '/'
  absent : before.entry? area.place = none
  located : files.locate area.path = .ok area.place
  directory : ∃ a, files.entry? area.place = some (.directory a)
  outside : ∀ place, ¬ area.place <+: place → files.entry? place = before.entry? place
  inside : ∀ place e, area.place <+: place → place ≠ area.place → files.entry? place = some e →
    ∃ n, e = .file n ∧ before.nextNumber ≤ n
  contents : ∀ n, n < before.nextNumber → files.content? n = before.content? n
  nextNumber : before.nextNumber ≤ files.nextNumber
  workingDirectory : files.workingDirectory = before.workingDirectory

theorem Filling.rewrite {n : Nat} (h : area.Filling before files) (hn : before.nextNumber ≤ n)
    (bytes : Bytes) : area.Filling before (files.rewrite n bytes) where
  path := h.path
  absent := h.absent
  located := locateWith_grown (.of_at?_eq fun _ => rfl) rfl h.located
  directory := h.directory
  outside := h.outside
  inside := h.inside
  contents m hm := by
    rw [Files.rewrite, content?_keep, if_neg (Nat.ne_of_lt (Nat.lt_of_lt_of_le hm hn))]
    exact h.contents m hm
  nextNumber := h.nextNumber
  workingDirectory := h.workingDirectory

theorem Filling.create {name : String} (h : area.Filling before files)
    (hnew : files.entry? (area.place ++ [name]) = none) (mode : Nat) (bytes : Bytes) :
    area.Filling before (files.create (area.place ++ [name]) mode bytes) := by
  obtain ⟨a, hdirectory⟩ := h.directory
  have hentry := entry?_create hdirectory name mode bytes
  have hgrown := grown_create hdirectory hnew mode bytes
  refine ⟨h.path, h.absent, locateWith_grown hgrown rfl h.located, ⟨a, ?_⟩, fun q hq => ?_,
    fun q e hq hne he => ?_, fun m hm => ?_, Nat.le_succ_of_le h.nextNumber, h.workingDirectory⟩
  · rw [hentry, if_neg (by simp), hdirectory]
  · rw [hentry, if_neg, h.outside q hq]
    rintro rfl
    exact hq (List.prefix_append _ _)
  · rw [hentry] at he
    split at he
    · exact ⟨_, (Option.some.inj he).symm, h.nextNumber⟩
    · exact h.inside q e hq hne he
  · have hne := Nat.ne_of_lt (Nat.lt_of_lt_of_le hm h.nextNumber)
    rw [content?_create, if_neg hne, h.contents m hm]

theorem last_of_join {directory file : String} (hfile : '/' ∉ file.toList)
    (hne : file.toList ≠ []) : (Path.join directory file).toList ≠ [] ∧
      (Path.join directory file).toList.getLast? ≠ some '/' := by
  have hjoin : ∃ front, (Path.join directory file).toList = front ++ file.toList := by
    rw [Path.toList_join hfile]
    split
    · exact ⟨[], rfl⟩
    · exact ⟨_, (List.append_cons _ _ _)⟩
  obtain ⟨front, hfront⟩ := hjoin
  rw [hfront]
  refine ⟨List.append_ne_nil_of_right_ne_nil _ hne, fun hlast => hfile ?_⟩
  rw [List.getLast?_append_of_ne_nil _ hne] at hlast
  exact List.mem_of_getLast? hlast

/-- The area is a new directory: at a path that led nowhere, under a name in the given one. -/
structure NewIn (area : Scratch) (directory : String) (before after : Files) : Prop where
  named : ∃ base name, before.locate base = before.locate directory ∧ name ≠ "" ∧
    '/' ∉ name.toList ∧ area.path = Path.join base name
  free : before.locateNew area.path = .ok area.place ∧ before.entry? area.place = none
  made : ∃ a, after = before.put area.place (.directory a)

theorem Filling.of_new {directory : String} (h : area.NewIn directory files made) :
    area.Filling files made := by
  obtain ⟨base, name, -, hne, hslash, hpath⟩ := h.named
  obtain ⟨hplace, habsent⟩ := h.free
  obtain ⟨a, rfl⟩ := h.made
  have hentry := entry?_putNew hplace habsent (.directory a)
  have hdirectory := (hentry area.place).trans (if_pos rfl)
  have hgrown := (MakesWay.of_putNew hplace habsent a).grown
  have hlocated := locate_of_locateNew hplace habsent hgrown rfl hdirectory
  refine ⟨?_, habsent, hlocated, ⟨a, hdirectory⟩, fun q hq => ?_, fun q e hq hother he => ?_,
    fun _ _ => rfl, Nat.le_refl _, rfl⟩
  · rw [hpath]
    exact last_of_join hslash (mt String.toList_eq_nil_iff.1 hne)
  · rw [hentry, if_neg]
    rintro rfl
    exact hq List.prefix_rfl
  · obtain ⟨below, rfl⟩ := hq
    rw [hentry, if_neg hother, entry?_eq, FileTree.at?_below habsent] at he
    cases he

/-- What is written under the name of an image goes into the area. -/
theorem Filling.write {name : String} {bytes : Bytes} (h : area.Filling before files)
    (hvalid : Image.isValidName name = true)
    (hwrite : files.write (area.imagePath name) bytes = .ok written) :
    area.Filling before written := by
  have hbelow : area.place <+: area.place ++ [Image.fileName name] := List.prefix_append _ _
  have hne : area.place ++ [Image.fileName name] ≠ area.place := by simp
  have hfile : ∀ e, files.entry? (area.place ++ [Image.fileName name]) = some e →
      ∃ n, e = .file n ∧ before.nextNumber ≤ n := fun e => h.inside _ e hbelow hne
  obtain ⟨a, hdirectory⟩ := h.directory
  obtain ⟨-, ⟨hnew, rfl⟩ | ⟨n, hentry, rfl⟩⟩ := write_fileName h.located hdirectory hvalid
    (fun e he => (hfile e he).imp fun _ hn => hn.1) hwrite
  · exact h.create hnew _ _
  · obtain ⟨m, hm, hn⟩ := hfile _ hentry
    obtain rfl := FileEntry.file.inj hm
    exact h.rewrite hn _

theorem Filling.persist (h : area.Filling before files) (images : List (String × StoredImage)) :
    area.Filling before (area.persist images files).1 := by
  induction images generalizing files with
  | nil => exact h
  | cons image rest ih =>
    rw [Scratch.persist]
    split
    · next hvalid =>
      split
      · exact h
      · next written hwrite => exact ih (h.write hvalid hwrite)
    · exact h

end Scratch

/-- What is relied on: a directory that is made is new, and one that is removed goes with all that
is in it. -/
structure TemporaryDirectories.Reliable (directories : TemporaryDirectories) : Prop where
  refused : ∀ {files after : Files} {directory : String} {e : FileError},
    directories.make Scratch.nameStart files directory = (after, .error e) → after = files
  made : ∀ {files after : Files} {directory : String} {area : Scratch},
    directories.make Scratch.nameStart files directory = (after, .ok area) →
      area.NewIn directory files after
  removed : ∀ {files : Files} {area : Scratch} {a : Attributes},
    files.entry? area.place = some (.directory a) →
      directories.remove area files = files.remove area.place
  gone : ∀ {files : Files} {area : Scratch}, files.entry? area.place = none →
    directories.remove area files = files

namespace TemporaryDirectories.Reliable

open Files

variable {directories : TemporaryDirectories} {area : Scratch} {before files made : Files}

/-- The area and what is in it are no more, and nothing else has changed. -/
theorem entry?_remove (h : directories.Reliable) (hroot : area.place ≠ [])
    (hat : ∀ e, files.entry? area.place = some e → e.isDirectory = true) :
    (∀ place, Files.entry? (directories.remove area files) place =
      if area.place <+: place then none else files.entry? place) ∧
    (directories.remove area files).contents = files.contents ∧
    (directories.remove area files).workingDirectory = files.workingDirectory := by
  cases hentry : files.entry? area.place with
  | none =>
    rw [h.gone hentry]
    refine ⟨fun place => ?_, rfl, rfl⟩
    split
    · next hbelow =>
      obtain ⟨below, rfl⟩ := hbelow
      exact FileTree.at?_below hentry
    · rfl
  | some e =>
    cases e with
    | directory a =>
      rw [h.removed hentry]
      exact ⟨FileTree.at?_remove hroot, rfl, rfl⟩
    | file n => cases hat _ hentry
    | device kind => cases hat _ hentry
    | program name => cases hat _ hentry
    | link target => cases hat _ hentry

/-- Once the area has been removed, nothing is left of it. -/
theorem remove_same (h : directories.Reliable) (habsent : before.entry? area.place = none)
    (hat : ∀ e, files.entry? area.place = some e → e.isDirectory = true)
    (houtside : ∀ place, ¬ area.place <+: place → SameAt before files place) (place : Location) :
    SameAt before (directories.remove area files) place := by
  obtain ⟨hgone, hcontents, -⟩ := h.entry?_remove (ne_nil_of_absent habsent) hat
  have hgone := hgone place
  by_cases hbelow : area.place <+: place
  · rw [if_pos hbelow] at hgone
    obtain ⟨below, rfl⟩ := hbelow
    have hnone : before.entry? (area.place ++ below) = none := FileTree.at?_below habsent
    refine ⟨hgone.trans hnone.symm, fun n hn => ?_⟩
    rw [hnone] at hn
    cases hn
  · rw [if_neg hbelow] at hgone
    refine SameAt.trans (houtside place hbelow) ⟨hgone, fun n _ => ?_⟩
    rw [content?, hcontents, content?]

end TemporaryDirectories.Reliable

namespace Scratch

open Files

variable {directories : TemporaryDirectories} {area : Scratch} {before files made : Files}

/-- Where the area is, there is a directory. -/
theorem Filling.there (h : area.Filling before files) (e : FileEntry)
    (he : files.entry? area.place = some e) : e.isDirectory = true := by
  obtain ⟨a, hdirectory⟩ := h.directory
  obtain rfl := Option.some.inj (hdirectory.symm.trans he)
  rfl

theorem Filling.same (h : area.Filling before files) (hnumbered : before.Numbered)
    {place : Location} (hplace : ¬ area.place <+: place) : SameAt before files place :=
  ⟨h.outside place hplace, fun n hn => h.contents n (hnumbered place n hn)⟩

theorem create_error (hdirectories : directories.Reliable) {root : Option String} {e : FileError}
    (h : create directories files root = (made, .error e)) : made = files.withRoot root := by
  cases root with
  | none =>
    rw [create] at h
    exact hdirectories.refused h
  | some directory =>
    rw [create] at h
    rw [withRoot]
    split at h
    · next ready e hready =>
      rw [hready]
      exact (Prod.mk.inj h).1.symm
    · next ready hready =>
      rw [hready]
      exact hdirectories.refused h

theorem Filling.of_create (hdirectories : directories.Reliable) {root : Option String}
    (h : Scratch.create directories files root = (made, .ok area)) :
    area.Filling (files.withRoot root) made := by
  cases root with
  | none =>
    rw [Scratch.create] at h
    exact of_new (hdirectories.made h)
  | some directory =>
    rw [Scratch.create] at h
    rw [withRoot]
    split at h
    · cases h
    · next ready hready =>
      rw [hready]
      exact of_new (hdirectories.made h)

theorem Filling.of_persist (hdirectories : directories.Reliable) {root : Option String}
    {images : List (String × StoredImage)} {filled : Files} {result : Except FileError Unit}
    (hcreate : Scratch.create directories files root = (made, .ok area))
    (hpersist : area.persist images made = (filled, result)) :
    area.Filling (files.withRoot root) filled := by
  have hfilling := (Filling.of_create hdirectories hcreate).persist images
  rwa [hpersist] at hfilling

end Scratch

section Traces

open Files

variable {directories : TemporaryDirectories} (hdirectories : directories.Reliable) {files : Files}

/-- Whoever was started in an area has changed nothing but what is in it. -/
structure Scratch.Confines (area : Scratch) (before after : Files) : Prop where
  there : ∀ e, after.entry? area.place = some e → e.isDirectory = true
  outside : ∀ place, ¬ area.place <+: place → SameAt before after place
  workingDirectory : after.workingDirectory = before.workingDirectory

theorem Scratch.Confines.refl {area : Scratch} {before : Files}
    (h : area.Filling before files) : area.Confines files files where
  there := h.there
  outside _ _ := ⟨rfl, fun _ _ => rfl⟩
  workingDirectory := rfl

/-- Filling an area further changes nothing but what is in it. -/
theorem Scratch.Filling.confines {area : Scratch} {before filled after : Files}
    (h : area.Filling before filled) (hnumbered : before.Numbered)
    (hafter : area.Filling before after) : area.Confines filled after where
  there := hafter.there
  outside place hplace := by
    refine ⟨(hafter.outside place hplace).trans (h.outside place hplace).symm, fun n hn => ?_⟩
    have hn := hnumbered place n ((h.outside place hplace).symm.trans hn)
    rw [hafter.contents n hn, h.contents n hn]
  workingDirectory := hafter.workingDirectory.trans h.workingDirectory.symm

theorem leavesNoTrace_withRoot (files : Files) (root : Option String) :
    LeavesNoTrace root files (files.withRoot root) :=
  .of_same (fun _ => ⟨rfl, fun _ _ => rfl⟩) rfl

include hdirectories

theorem Scratch.Filling.of_filled {area : Scratch} {root : Option String} {filled : Files}
    {images : List (String × StoredImage)}
    (h : Scratch.filled? directories files root images = some (area, filled)) :
    area.Filling (files.withRoot root) filled := by
  obtain ⟨made, hcreate, hpersist⟩ := Scratch.filled?_eq_some h
  exact .of_persist hdirectories hcreate hpersist

/-- Whatever was done inside an area, nothing is left of it in the end. -/
theorem Scratch.Filling.leavesNoTrace {area : Scratch}
    {root : Option String} {filled after : Files} (h : area.Filling (files.withRoot root) filled)
    (hnumbered : files.Numbered) (hconfined : area.Confines filled after) :
    LeavesNoTrace root files (directories.remove area after) := by
  refine .of_same (hdirectories.remove_same h.absent hconfined.there fun place hplace => ?_) ?_
  · exact (h.same hnumbered.withRoot hplace).trans (hconfined.outside place hplace)
  · obtain ⟨-, -, hworking⟩ :=
      hdirectories.entry?_remove (ne_nil_of_absent h.absent) hconfined.there
    rw [hworking, hconfined.workingDirectory, h.workingDirectory]

/-- An area that is removed before anyone was started in it leaves nothing behind. -/
theorem Scratch.Filling.removed {area : Scratch} {root : Option String} {filled : Files}
    (h : area.Filling (files.withRoot root) filled) (hnumbered : files.Numbered) :
    LeavesNoTrace root files (directories.remove area filled) :=
  h.leavesNoTrace hdirectories hnumbered (.refl h)

theorem Sandbox.openEntry_error {closure : Closure}
    {entry : String} {options : ExecutionOptions} {after : Files} {fault : SandboxFault}
    (hnumbered : files.Numbered)
    (h : Sandbox.openEntry directories files closure entry options = (after, .error fault)) :
    LeavesNoTrace options.scratchRoot files after := by
  rw [openEntry] at h
  split at h
  · obtain ⟨rfl, -⟩ := Prod.mk.inj h
    exact .refl _ _
  split at h
  · next made e hcreate =>
    obtain ⟨rfl, -⟩ := Prod.mk.inj h
    rw [Scratch.create_error hdirectories hcreate]
    exact leavesNoTrace_withRoot files _
  · next made area hcreate =>
    split at h
    · next filled e hpersist =>
      obtain ⟨rfl, -⟩ := Prod.mk.inj h
      have hfilling := Scratch.Filling.of_persist hdirectories hcreate hpersist
      exact hfilling.removed hdirectories hnumbered
    · next filled hpersist =>
      have hfilling := Scratch.Filling.of_persist hdirectories hcreate hpersist
      simp only at h
      split at h
      · obtain ⟨rfl, -⟩ := Prod.mk.inj h
        exact hfilling.removed hdirectories hnumbered
      · cases h

theorem Sandbox.openEntry_filling {closure : Closure}
    {entry : String} {options : ExecutionOptions} {filled : Files} {sandbox : Sandbox}
    (h : Sandbox.openEntry directories files closure entry options = (filled, .ok sandbox)) :
    sandbox.scratch.Filling (files.withRoot options.scratchRoot) filled := by
  rw [openEntry] at h
  split at h
  · cases h
  split at h
  · cases h
  · next made area hcreate =>
    split at h
    · cases h
    · next filled hpersist =>
      simp only at h
      split at h
      · cases h
      · obtain ⟨rfl, hsandbox⟩ := Prod.mk.inj h
        obtain rfl := Except.ok.inj hsandbox
        exact .of_persist hdirectories hcreate hpersist

theorem execute_trace (hnumbered : files.Numbered)
    (fuel : Nat) (closure : Closure) (entry typeName method : String)
    (options : ExecutionOptions) :
    LeavesNoTrace options.scratchRoot files
      (execute directories files fuel closure entry typeName method options).1 := by
  rw [execute]
  split
  · next after fault hopen => exact Sandbox.openEntry_error hdirectories hnumbered hopen
  · next filled sandbox hopen =>
    exact (Sandbox.openEntry_filling hdirectories hopen).removed hdirectories hnumbered

theorem External.run_trace (hnumbered : files.Numbered) {launch : Launch} {program : String}
    {closure : Closure} {method : MethodRef} {options : ExecutionOptions}
    (hlaunch : ∀ area filled, Scratch.filled? directories files options.scratchRoot
        closure.images.entries = some (area, filled) →
      area.Confines filled (launch filled area.path program
        [Image.fileName closure.entry, filterFlag, method.written]).1) (place : SourcePlace) :
    LeavesNoTrace options.scratchRoot files
      (run directories launch files program closure method place options).1 := by
  cases hfilled : Scratch.filled? directories files options.scratchRoot closure.images.entries with
  | none =>
    obtain ⟨made, e, hcreate | ⟨area, left, hcreate, hpersist⟩⟩ := Scratch.filled?_eq_none hfilled
    · rw [run, hcreate, Scratch.create_error hdirectories hcreate]
      exact leavesNoTrace_withRoot files _
    · have hfilling := Scratch.Filling.of_persist hdirectories hcreate hpersist
      rw [run, hcreate]
      simp only [hpersist]
      exact hfilling.removed hdirectories hnumbered
  | some started =>
    obtain ⟨area, filled⟩ := started
    obtain ⟨made, hcreate, hpersist⟩ := Scratch.filled?_eq_some hfilled
    have hconfined := hlaunch area filled hfilled
    have hclosed : (run directories launch files program closure method place options).1 =
        directories.remove area (launch filled area.path program
          [Image.fileName closure.entry, filterFlag, method.written]).1 := by
      rw [run, hcreate]
      simp only [hpersist]
      split
      all_goals
        next hend =>
          rw [hend]
    rw [hclosed]
    exact (Scratch.Filling.of_filled hdirectories hfilled).leavesNoTrace hdirectories hnumbered
      hconfined

/-- Nothing is left behind by a run, however it ends, neither in the process nor by a program that
writes only where it is started. -/
theorem runs_leave_no_trace (hnumbered : files.Numbered) (closure : Closure)
    (options : ExecutionOptions) :
    (∀ fuel entry typeName method, LeavesNoTrace options.scratchRoot files
      (execute directories files fuel closure entry typeName method options).1) ∧
    ∀ (launch : Launch) program (method : MethodRef) place,
      (∀ area filled, Scratch.filled? directories files options.scratchRoot
          closure.images.entries = some (area, filled) →
        area.Confines filled (launch filled area.path program
          [Image.fileName closure.entry, External.filterFlag, method.written]).1) →
      LeavesNoTrace options.scratchRoot files
        (External.run directories launch files program closure method place options).1 :=
  ⟨fun fuel entry typeName method =>
    execute_trace hdirectories hnumbered fuel closure entry typeName method options,
  fun _ _ _ place hlaunch => External.run_trace hdirectories hnumbered hlaunch place⟩

end Traces

namespace Programs

variable {files made : Files} {directory : String} {area : Scratch}

theorem candidate_name (n : Nat) : candidate Scratch.nameStart n ≠ "" ∧
    '/' ∉ (candidate Scratch.nameStart n).toList := by
  have hdigits : (toString n).toList = Nat.toDigits 10 n := Nat.toList_repr
  rw [← String.toList_inj.ne, candidate, String.toList_append, List.mem_append, hdigits]
  refine ⟨List.append_ne_nil_of_left_ne_nil (by decide) _, not_or.2 ⟨by decide, fun hmem => ?_⟩⟩
  exact absurd (Nat.isDigit_of_mem_toDigits (by decide) (by decide) hmem) (by decide)

theorem makeNumbered_eq_ok
    (h : makeNumbered Scratch.nameStart files directory = (made, .ok area)) :
    area.NewIn directory files made := by
  unfold makeNumbered at h
  simp only at h
  split at h
  · next hmade hplace =>
    obtain ⟨rfl, harea⟩ := Prod.mk.inj h
    obtain rfl := Except.ok.inj harea
    obtain ⟨place, hnew, habsent, rfl⟩ := Files.makeDirectory_eq_ok.1 hmade
    obtain rfl := Except.ok.inj (hplace.symm.trans hnew)
    obtain ⟨hne, hslash⟩ := candidate_name _
    exact ⟨⟨directory, _, rfl, hne, hslash, rfl⟩, ⟨hplace, habsent⟩, _, rfl⟩
  · cases h
  · cases h

theorem makeNumbered_error {e : FileError}
    (h : makeNumbered Scratch.nameStart files directory = (made, .error e)) : made = files := by
  unfold makeNumbered at h
  simp only at h
  split at h
  · cases h
  · exact (Prod.mk.inj h).1.symm
  · exact (Prod.mk.inj h).1.symm

theorem make_eq : directories.make = makeNumbered := by rw [directories]

theorem remove_eq : directories.remove = removeArea := by rw [directories]

theorem directories_reliable : directories.Reliable where
  refused h := by
    rw [make_eq] at h
    exact makeNumbered_error h
  made h := by
    rw [make_eq] at h
    exact makeNumbered_eq_ok h
  removed h := by rw [remove_eq, removeArea, h]
  gone h := by rw [remove_eq, removeArea, h]

end Programs

section Traces

open Files

/-- A member of a closure whose bytes are no image and have another digest. -/
def brokenClosure : Closure where
  entry := "App"
  images := NameMap.insert .empty "App" ⟨"App", [0x21], Digest.ofBytes []⟩

/-- Writes a file into the directory where it is started. -/
def scribble : Launch := fun files directory _ _ =>
  match files.write (Path.join directory (Image.fileName "notes")) [0x21] with
  | .ok written => (written, some (.ok ⟨[], [], .code 0⟩))
  | .error e => (files, some (.error e))

theorem scribble_confined {area : Scratch} {before filled : Files}
    (h : area.Filling before filled) (hnumbered : before.Numbered) (program : String)
    (arguments : List String) :
    area.Confines filled (scribble filled area.path program arguments).1 := by
  unfold scribble
  split
  · next written hwrite => exact h.confines hnumbered (h.write (by decide) hwrite)
  · exact .refl h

theorem runs_leave_no_trace_broken :
    Programs.directories.Reliable ∧ Files.fresh.Numbered ∧
    LeavesNoTrace (some "out/area") .fresh
      (execute Programs.directories .fresh 9 brokenClosure "App" "T" "m" ⟨some "out/area", 9⟩).1 ∧
    LeavesNoTrace (some "out/area") .fresh (External.run Programs.directories scribble .fresh
      "scribble" brokenClosure ⟨"T", "m"⟩ ⟨"App.cs", 1, 1⟩ ⟨some "out/area", 9⟩).1 := by
  obtain ⟨hexecute, hrun⟩ := runs_leave_no_trace Programs.directories_reliable fresh_numbered
    brokenClosure ⟨some "out/area", 9⟩
  refine ⟨Programs.directories_reliable, fresh_numbered, hexecute 9 "App" "T" "m",
    hrun scribble "scribble" _ _ ?_⟩
  intro area filled hfilled
  exact scribble_confined (.of_filled Programs.directories_reliable hfilled)
    fresh_numbered.withRoot _ _

end Traces

end TestBench
