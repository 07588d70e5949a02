import Mathlib.Logic.Relation
import TestBench.Proofs.FollowedPaths

/-!
Directories that are made together with those above them. Whether that ends
well or not, nothing that was there is any different, and what is new are
directories to which the path leads or one of those above it. Nothing is new if
the directory was there before.
-/
namespace TestBench

namespace Path

/-- A path is above another one that it is a parent of, at any remove. -/
def Above (path below : String) : Prop :=
  Relation.ReflTransGen (fun path above => parent? path.toList = some above.toList) below path

theorem splitAt_replicate (separator : Char) (n : Nat) :
    splitAt separator (List.replicate n separator) = List.replicate (n + 1) [] := by
  induction n with
  | zero => rfl
  | succ n ih =>
    rw [List.replicate_succ, splitAt, if_pos rfl, ih]
    rfl

theorem splitAt_append_replicate (separator : Char) (cs : List Char) (n : Nat) :
    splitAt separator (cs ++ List.replicate n separator) =
      splitAt separator cs ++ List.replicate n [] := by
  cases n with
  | zero => rw [List.replicate_zero, List.replicate_zero, List.append_nil, List.append_nil]
  | succ n => rw [List.replicate_succ, splitAt_append, splitAt_replicate]

theorem dropTrailing_append (c : Char) (cs : List Char) :
    ∃ n, cs = dropTrailing (· == c) cs ++ List.replicate n c := by
  refine ⟨(cs.reverse.takeWhile (· == c)).length, ?_⟩
  have hall : cs.reverse.takeWhile (· == c) =
      List.replicate (cs.reverse.takeWhile (· == c)).length c := by
    refine List.eq_replicate_iff.2 ⟨rfl, fun b hb => ?_⟩
    simpa using List.mem_takeWhile_imp hb
  rw [← List.reverse_replicate, ← hall, dropTrailing, ← List.reverse_append,
    List.takeWhile_append_dropWhile, List.reverse_reverse]

/-- A path without the slashes at its end, unless it has nothing else. -/
def bare (path : String) : String :=
  if (dropTrailing (· == '/') path.toList).isEmpty then path
  else String.ofList (dropTrailing (· == '/') path.toList)

theorem bare_append (path : String) :
    ∃ n, path.toList = (bare path).toList ++ List.replicate n '/' := by
  unfold bare
  split
  · exact ⟨0, by rw [List.replicate_zero, List.append_nil]⟩
  · rw [String.toList_ofList]
    exact dropTrailing_append '/' path.toList

theorem toList_bare_ne_nil {path : String} (h : path.toList ≠ []) : (bare path).toList ≠ [] := by
  unfold bare
  split
  · exact h
  · next hbare =>
    rw [String.toList_ofList]
    exact fun hnil => hbare (by rw [hnil]; rfl)

theorem isAbsolute_append {cs : List Char} (h : cs ≠ []) (more : List Char) :
    isAbsolute (cs ++ more) = isAbsolute cs := by
  cases cs with
  | nil => exact absurd rfl h
  | cons c cs => rfl

end Path

namespace Files

open Trail

theorem entry?_eq (files : Files) (place : Location) :
    files.entry? place = files.root.at? place := rfl

section Locating

variable {files after : Files} {path : String} {place : Location} {followsLast : Bool}

/-- Where a path begins. -/
def start (files : Files) (path : String) : Location :=
  if Path.isAbsolute path.toList then [] else files.workingDirectory

theorem sizeInBytes_append (cs more : List Char) :
    sizeInBytes (cs ++ more) = sizeInBytes cs + sizeInBytes more := by
  simp [sizeInBytes, Utf8.encode]

theorem locateWith_eq_ok : files.locateWith followsLast path = .ok place ↔
    ('\x00' ∉ path.toList ∧ path.toList ≠ [] ∧ sizeInBytes path.toList < pathLimit) ∧
      Leads files.root followsLast linkLimit (files.start path) (Path.splitAt '/' path.toList)
        place := by
  rw [← walk_iff, locateWith, start]
  by_cases hnul : '\x00' ∈ path.toList
  · simp [hnul]
  by_cases hempty : path.toList = []
  · simp [hempty]
  by_cases hsize : pathLimit ≤ sizeInBytes path.toList
  · simp [hnul, hempty, hsize, Nat.not_lt.2 hsize]
  · simp [hnul, hempty, hsize, Nat.not_le.1 hsize]

/-- More directories do not change where a path leads. -/
theorem locateWith_grown (hgrown : files.root.Grown after.root)
    (hworking : after.workingDirectory = files.workingDirectory)
    (h : files.locateWith followsLast path = .ok place) :
    after.locateWith followsLast path = .ok place := by
  obtain ⟨hpath, hleads⟩ := locateWith_eq_ok.1 h
  refine locateWith_eq_ok.2 ⟨hpath, ?_⟩
  rw [start, hworking]
  exact hleads.grown hgrown

theorem locateNew_eq_ok : files.locateNew path = .ok place ↔
    sizeInBytes path.toList < pathLimit ∧ files.locateEntry (Path.bare path) = .ok place := by
  have hunfold : files.locateNew path =
      if pathLimit ≤ sizeInBytes path.toList then .error .nameTooLong
      else files.locateEntry (Path.bare path) := rfl
  rw [hunfold]
  split
  · next hsize => simp [Nat.not_lt.2 hsize]
  · next hsize => simp [Nat.not_le.1 hsize]

/-- Once it has been made, the path of a new directory leads to it. -/
theorem locate_of_locateNew (h : files.locateNew path = .ok place)
    (hnew : files.entry? place = none) (hgrown : files.root.Grown after.root)
    (hworking : after.workingDirectory = files.workingDirectory)
    {a : Attributes} (hmade : after.entry? place = some (.directory a)) :
    after.locate path = .ok place := by
  obtain ⟨hsize, hentry⟩ := locateNew_eq_ok.1 h
  obtain ⟨⟨hnul, hne, -⟩, hleads⟩ := locateWith_eq_ok.1 hentry
  obtain ⟨n, hpath⟩ := Path.bare_append path
  refine locateWith_eq_ok.2 ⟨⟨?_, ?_, hsize⟩, ?_⟩
  · rw [hpath, List.mem_append, List.mem_replicate]
    exact not_or.2 ⟨hnul, fun hslash => absurd hslash.2 (by decide)⟩
  · rw [hpath]
    exact List.append_ne_nil_of_left_ne_nil hne _
  · have hstart : after.start path = files.start (Path.bare path) := by
      rw [start, start, hworking, hpath, Path.isAbsolute_append hne]
    rw [hstart, hpath, Path.splitAt_append_replicate]
    exact ((hleads.followed hnew).grown hgrown).append fun links => Leads.stay hmade n links

theorem isDirectory_eq_true (h : files.isDirectory path = true) :
    ∃ place a, files.locate path = .ok place ∧ files.entry? place = some (.directory a) := by
  unfold isDirectory find at h
  cases hplace : files.locate path with
  | error e =>
    rw [hplace] at h
    cases h
  | ok place =>
    rw [hplace] at h
    simp only [bind, Except.bind] at h
    cases hentry : files.entry? place with
    | none =>
      rw [hentry] at h
      cases h
    | some e =>
      rw [hentry] at h
      cases e with
      | directory a => exact ⟨place, a, rfl, hentry⟩
      | file n => cases h
      | device kind => cases h
      | program name => cases h
      | link target => cases h

/-- A directory that is there can be found without the slashes at the end of its path. -/
theorem locateNew_of_locate {a : Attributes} (h : files.locate path = .ok place)
    (hplace : files.entry? place = some (.directory a)) :
    ∃ near e, files.locateNew path = .ok near ∧ files.entry? near = some e := by
  obtain ⟨⟨hnul, hne, hsize⟩, hleads⟩ := locateWith_eq_ok.1 h
  obtain ⟨n, hpath⟩ := Path.bare_append path
  have hbare := Path.toList_bare_ne_nil hne
  have hstart : files.start path = files.start (Path.bare path) := by
    rw [start, start, hpath, Path.isAbsolute_append hbare]
  rw [hpath, Path.splitAt_append_replicate, hstart] at hleads
  obtain ⟨near, hnear⟩ := hleads.beginning
  refine ⟨near, ?_⟩
  have hthere : files.root.at? near ≠ none := by
    intro hnone
    obtain ⟨links, hrest⟩ := (hnear.followed hnone).of_append hleads
    rw [hrest.nil_of_at?_eq_none hnone] at hrest
    cases hrest
    rw [entry?_eq, hnone] at hplace
    cases hplace
  obtain ⟨e, he⟩ := Option.ne_none_iff_exists'.1 hthere
  refine ⟨e, locateNew_eq_ok.2 ⟨hsize, locateWith_eq_ok.2 ⟨⟨?_, hbare, ?_⟩, hnear⟩⟩, he⟩
  · intro hmem
    rw [hpath] at hnul
    exact hnul (List.mem_append_left _ hmem)
  · rw [hpath, sizeInBytes_append] at hsize
    exact Nat.lt_of_le_of_lt (Nat.le_add_right _ _) hsize

end Locating

section Making

variable {files made : Files} {path : String}

theorem makeDirectory_eq_ok : files.makeDirectory path = .ok made ↔ ∃ place,
    files.locateNew path = .ok place ∧ files.entry? place = none ∧
      made = files.putDirectory place := by
  unfold makeDirectory
  cases hplace : files.locateNew path with
  | error e =>
    constructor
    · rintro ⟨⟩
    · rintro ⟨place, h, -⟩
      cases h
  | ok place =>
    simp only [bind, Except.bind]
    cases hentry : files.entry? place with
    | some e =>
      constructor
      · rintro ⟨⟩
      · rintro ⟨other, h, hnone, -⟩
        obtain rfl := Except.ok.inj h
        rw [hentry] at hnone
        cases hnone
    | none =>
      constructor
      · intro h
        exact ⟨place, rfl, hentry, (Except.ok.inj h).symm⟩
      · rintro ⟨other, h, -, rfl⟩
        obtain rfl := Except.ok.inj h
        rfl

theorem makeDirectory_of_isDirectory (h : files.isDirectory path = true) :
    files.makeDirectory path = .error .alreadyThere := by
  obtain ⟨place, a, hplace, hentry⟩ := isDirectory_eq_true h
  obtain ⟨near, e, hnear, hthere⟩ := locateNew_of_locate hplace hentry
  unfold makeDirectory
  simp only [hnear, bind, Except.bind, hthere]

/-- What is put where a path leads and nothing was is all that is new. -/
theorem entry?_putNew {place : Location} (h : files.locateNew path = .ok place)
    (hnew : files.entry? place = none) (e : FileEntry) (q : Location) :
    entry? (files.put place e) q = if q = place then some e else files.entry? q := by
  obtain ⟨-, hleads⟩ := locateWith_eq_ok.1 (locateNew_eq_ok.1 h).2
  obtain ⟨above, name, a, rfl, habove⟩ :=
    hleads.above_of_new hnew (Path.splitAt_ne_nil _ _)
  exact FileTree.at?_put (habove ▸ Option.some_ne_none _) q

end Making

/-- Directories are all that is new, where a path or one above it leads. -/
structure MakesWay (path : String) (before after : Files) : Prop where
  contents : after.contents = before.contents
  nextNumber : after.nextNumber = before.nextNumber
  workingDirectory : after.workingDirectory = before.workingDirectory
  new : ∀ place, after.entry? place = before.entry? place ∨
    before.entry? place = none ∧ (∃ a, after.entry? place = some (.directory a)) ∧
      ∃ above, Path.Above above path ∧ after.locate above = .ok place

namespace MakesWay

variable {before between after : Files} {path : String}

theorem refl (path : String) (files : Files) : MakesWay path files files :=
  ⟨rfl, rfl, rfl, fun _ => Or.inl rfl⟩

theorem grown (h : MakesWay path before after) : before.root.Grown after.root := by
  intro place
  rcases h.new place with hsame | ⟨hnone, ⟨a, ha⟩, -⟩
  · exact Or.inl hsame
  · exact Or.inr ⟨hnone, _, ha, rfl⟩

theorem trans (h : MakesWay path before between) (hmore : MakesWay path between after) :
    MakesWay path before after where
  contents := hmore.contents.trans h.contents
  nextNumber := hmore.nextNumber.trans h.nextNumber
  workingDirectory := hmore.workingDirectory.trans h.workingDirectory
  new place := by
    rcases h.new place with hsame | ⟨hnone, ⟨a, ha⟩, above, habove, hplace⟩
    · rw [← hsame]
      exact hmore.new place
    · exact Or.inr ⟨hnone, ⟨a, hmore.grown.at? ha⟩, above, habove,
        locateWith_grown hmore.grown hmore.workingDirectory hplace⟩

theorem of_above {above : String} (habove : Path.Above above path)
    (h : MakesWay above before after) : MakesWay path before after where
  contents := h.contents
  nextNumber := h.nextNumber
  workingDirectory := h.workingDirectory
  new place := (h.new place).imp_right fun ⟨hnone, hmade, further, hfurther, hplace⟩ =>
    ⟨hnone, hmade, further, habove.trans hfurther, hplace⟩

theorem of_putNew {place : Location} (hplace : before.locateNew path = .ok place)
    (hnew : before.entry? place = none) (a : Attributes) :
    MakesWay path before (before.put place (.directory a)) := by
  have hentry := entry?_putNew hplace hnew (.directory a)
  refine ⟨rfl, rfl, rfl, fun q => ?_⟩
  by_cases hq : q = place
  · subst hq
    have hmade := (hentry q).trans (if_pos rfl)
    refine Or.inr ⟨hnew, ⟨_, hmade⟩, path, .refl, ?_⟩
    refine locate_of_locateNew hplace hnew ?_ rfl hmade
    intro other
    by_cases hother : other = q
    · exact Or.inr ⟨hother ▸ hnew, _, (hentry other).trans (if_pos hother), rfl⟩
    · exact Or.inl ((hentry other).trans (if_neg hother))
  · exact Or.inl ((hentry q).trans (if_neg hq))

theorem of_makeDirectory (h : before.makeDirectory path = .ok after) :
    MakesWay path before after := by
  obtain ⟨place, hplace, hnew, rfl⟩ := makeDirectory_eq_ok.1 h
  exact of_putNew hplace hnew _

theorem makeDirectories (limit : Nat) (path : String) (files : Files) :
    MakesWay path files (files.makeDirectories path limit).1 := by
  induction limit generalizing path with
  | zero => exact refl path files
  | succ limit ih =>
    unfold Files.makeDirectories
    split
    · exact refl path files
    split
    · next made hmade => exact of_makeDirectory hmade
    · split
      · exact refl path files
      · next above habove =>
        have hway : MakesWay path files (files.makeDirectories (String.ofList above) limit).1 :=
          (ih (String.ofList above)).of_above (.single (by rw [habove, String.toList_ofList]))
        split
        · next made e hmade =>
          rw [hmade] at hway
          exact hway
        · next made hmade =>
          rw [hmade] at hway
          split
          · next last hlast => exact hway.trans (of_makeDirectory hlast)
          · exact hway
    · exact refl path files

end MakesWay

/-- Nothing is made if it is there already. -/
theorem ensureDirectory_of_isDirectory {files : Files} {path : String}
    (h : files.isDirectory path = true) : (files.ensureDirectory path).1 = files := by
  unfold ensureDirectory makeDirectories
  split
  · rfl
  · rw [makeDirectory_of_isDirectory h]

end Files

end TestBench
