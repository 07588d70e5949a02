import TestBench.Proofs.LinkedClosures
import TestBench.Proofs.PrintedLines
import TestBench.Proofs.StoreEffect
import TestBench.Sandbox.Basic
import TestBench.Verdict.Runner

/-!
A closure that was written to an area and is read back. Whoever knows the
closure and checks every digest, and whoever only lists the area and takes the
image files that are there, resolves every name alike, as long as the area has
the files of the closure and nothing else. Loading asks for nothing but names,
so both load the same machine.
-/
namespace TestBench

namespace Path

theorem components_of_not_mem {cs : List Char} (hslash : '/' ∉ cs) (hne : cs ≠ [])
    (hdot : cs ≠ ['.']) (hdots : cs ≠ ['.', '.']) : components cs = [.name cs] := by
  have habsolute : isAbsolute cs = false := by
    rw [isAbsolute, decide_eq_false_iff_not]
    exact fun h => hslash (List.mem_of_head? h)
  rw [components, splitAt_of_not_mem hslash, habsolute]
  simp [component?, hne, hdot, hdots]

theorem dropTrailing_of_not_mem {c : Char} {cs : List Char} (h : c ∉ cs) :
    dropTrailing (· == c) cs = cs := by
  have hkept : cs.reverse.dropWhile (· == c) = cs.reverse := by
    cases hreverse : cs.reverse with
    | nil => rfl
    | cons d rest =>
      have hne : d ≠ c := by
        rintro rfl
        exact h (List.mem_reverse.1 (hreverse ▸ List.mem_cons_self))
      exact List.dropWhile_cons_of_neg (by simpa using hne)
  rw [dropTrailing, hkept, List.reverse_reverse]

theorem takeWhile_of_not_mem {c : Char} {cs : List Char} (h : c ∉ cs) :
    cs.reverse.takeWhile (· != c) = cs.reverse := by
  rw [List.takeWhile_eq_self_iff]
  intro d hd
  rw [bne_iff_ne]
  rintro rfl
  exact h (List.mem_reverse.1 hd)

theorem trimEnd_of_not_mem {cs : List Char} (hslash : '/' ∉ cs) (hdot : cs ≠ ['.'])
    (limit : Nat) : trimEnd cs limit = cs := by
  cases limit with
  | zero => rfl
  | succ limit =>
    rw [trimEnd, dropTrailing_of_not_mem hslash, takeWhile_of_not_mem hslash]
    simp only [List.reverse_reverse]
    split
    · next hnil => rw [hnil, List.take_nil]
    · exact if_neg fun h => hdot h.1

theorem parent?_of_not_mem {cs : List Char} (hslash : '/' ∉ cs) (hne : cs ≠ [])
    (hdot : cs ≠ ['.']) (hdots : cs ≠ ['.', '.']) : parent? cs = some [] := by
  rw [parent?, components_of_not_mem hslash hne hdot hdots]
  simp only [List.getLast?_singleton]
  rw [trimEnd_of_not_mem hslash hdot, takeWhile_of_not_mem hslash, List.length_reverse,
    Nat.sub_self, List.take_zero, trimEnd_of_not_mem List.not_mem_nil (List.cons_ne_nil _ _).symm]

/-- A slash stands between a directory and what is in it. -/
theorem toList_join {file : String} (hfile : '/' ∉ file.toList) (directory : String) :
    (join directory file).toList = if directory.toList = [] then file.toList
      else (if directory.toList.getLast? = some '/' then directory.toList.dropLast
        else directory.toList) ++ '/' :: file.toList := by
  have hrelative : isAbsolute file.toList = false := by
    refine Bool.eq_false_iff.2 fun habsolute => hfile ?_
    exact List.mem_of_head? (of_decide_eq_true habsolute)
  have hempty : directory.isEmpty = true ↔ directory.toList = [] := by
    rw [String.isEmpty_iff, String.toList_eq_nil_iff]
  rw [join, hrelative, Bool.false_or]
  simp only [hempty]
  split
  · rfl
  split
  · next hlast =>
    have hdirectory : directory.toList = directory.toList.dropLast ++ ['/'] :=
      (List.dropLast_append_getLast? _ hlast).symm
    rw [String.toList_append]
    nth_rewrite 1 [hdirectory]
    rw [List.append_assoc]
    rfl
  · rw [String.toList_append, String.toList_append, List.append_assoc]
    rfl

end Path

namespace Image

variable {name : String}

theorem valid_name (h : isValidName name = true) : '/' ∉ name.toList ∧ name.toList ≠ [] := by
  simp only [isValidName, Bool.and_eq_true, List.all_eq_true, bne_iff_ne] at h
  obtain ⟨⟨⟨hempty, -⟩, -⟩, hall⟩ := h
  exact ⟨fun hmem => (hall '/' hmem).1.1 rfl, by simpa using hempty⟩

theorem toList_fileName (name : String) :
    (fileName name).toList = name.toList ++ ['.', 't', 'd', 'i'] := by
  rw [fileName, String.toList_append, String.toList_append, List.append_assoc]
  rfl

section Valid

variable (h : isValidName name = true)

include h

theorem not_mem_fileName : '/' ∉ (fileName name).toList := by
  rw [toList_fileName, List.mem_append]
  exact not_or.2 ⟨(valid_name h).1, by decide⟩

/-- The name of an image file has at least five characters. -/
theorem fileName_ne {cs : List Char} (hlength : cs.length ≤ 4) : (fileName name).toList ≠ cs := by
  intro heq
  have hne := List.length_pos_of_ne_nil (valid_name h).2
  have hfive := congrArg List.length heq
  rw [toList_fileName, List.length_append, List.length_cons] at hfive
  simp at hfive
  omega

theorem fileName?_fileName :
    Path.fileName? (fileName name).toList = some (fileName name).toList := by
  rw [Path.fileName?, Path.components_of_not_mem (not_mem_fileName h) (fileName_ne h (by decide))
    (fileName_ne h (by decide)) (fileName_ne h (by decide))]
  rfl

theorem splitExtension_fileName :
    Path.splitExtension (fileName name).toList = (name.toList, some extension.toList) := by
  have hafter : ((fileName name).toList.reverse.takeWhile (· != '.')).reverse =
      extension.toList := by
    rw [toList_fileName, List.reverse_append]
    rfl
  have hbefore : (fileName name).toList.take
      ((fileName name).toList.length - extension.toList.length - 1) = name.toList := by
    rw [toList_fileName, List.length_append]
    exact List.take_left
  have hlength : extension.toList.length ≠ (fileName name).toList.length := by
    rw [toList_fileName, List.length_append]
    exact (Nat.lt_of_lt_of_le (by decide) (Nat.le_add_left 4 _)).ne
  rw [Path.splitExtension]
  simp only [hafter, hbefore]
  rw [if_neg (not_or.2 ⟨hlength, (valid_name h).2⟩)]

theorem stem?_fileName : Path.stem? (fileName name).toList = some name.toList := by
  rw [Path.stem?, fileName?_fileName h, Option.map_some, splitExtension_fileName h]

theorem directoryOf_fileName : Runner.directoryOf (fileName name) = "." := by
  rw [Runner.directoryOf, Path.parent?_of_not_mem (not_mem_fileName h)
    (fileName_ne h (by decide)) (fileName_ne h (by decide)) (fileName_ne h (by decide))]

theorem imageName?_fileName : Resolver.imageName? (fileName name) = some name := by
  rw [Resolver.imageName?, splitExtension_fileName h]
  exact congrArg some String.ofList_toList

end Valid

end Image

namespace NameMap

variable {α : Type}

theorem get?_eq_some_of_mem {m : NameMap α} {e : String × α} (h : e ∈ m.entries) :
    ∃ value, m.get? e.1 = some value := by
  have hsome : (m.entries.find? (·.1 == e.1)).isSome = true :=
    List.find?_isSome.2 ⟨e, h, beq_self_eq_true _⟩
  obtain ⟨found, hfound⟩ := Option.isSome_iff_exists.1 hsome
  exact ⟨found.2, by rw [get?, find?, hfound]; rfl⟩

theorem mem_of_get? {m : NameMap α} {key : String} {value : α} (h : m.get? key = some value) :
    (key, value) ∈ m.entries := by
  obtain ⟨e, hfind, rfl⟩ := Option.map_eq_some_iff.1 h
  have hkey : e.1 = key := by simpa using List.find?_some hfind
  exact hkey ▸ List.mem_of_find?_eq_some hfind

theorem mem_keys {m : NameMap α} {key : String} :
    key ∈ m.keys ↔ ∃ value, m.get? key = some value := by
  constructor
  · intro h
    obtain ⟨e, he, rfl⟩ := List.mem_map.1 h
    exact get?_eq_some_of_mem he
  · rintro ⟨value, h⟩
    exact List.mem_map.2 ⟨_, mem_of_get? h, rfl⟩

theorem mem_keys_ofList {entries : List (String × α)} {key : String} :
    key ∈ (ofList entries).keys ↔ key ∈ entries.map (·.1) := by
  have hfold : ∀ (entries : List (String × α)) (m : NameMap α),
      key ∈ (entries.foldl (fun m e => m.insert e.1 e.2) m).keys ↔
        key ∈ m.keys ∨ key ∈ entries.map (·.1) := by
    intro entries
    induction entries with
    | nil => simp
    | cons e rest ih =>
      intro m
      rw [List.foldl_cons, ih, mem_keys, get?_insert, mem_keys, List.map_cons, List.mem_cons]
      by_cases hkey : key = e.1
      · simp [hkey]
      · simp [hkey]
  rw [ofList, hfold]
  simp [empty, keys]

end NameMap

namespace Scratch

/-- The files as they look to a program that was started in the area. -/
def within (area : Scratch) (files : Files) : Files :=
  { files with workingDirectory := area.place }

/-- The area has the files of the images and no others, to whoever reads it from outside by its
path and to whoever was started in it. -/
structure ReadsBack (area : Scratch) (images : List (String × StoredImage)) (files : Files) :
    Prop where
  located : files.locate area.path = .ok area.place
  outside : ∀ name stored, (name, stored) ∈ images →
    files.read (Path.join area.path (Image.fileName name)) = .ok stored.bytes
  inside : ∀ name stored, (name, stored) ∈ images →
    (area.within files).read (Path.join "." (Image.fileName name)) = .ok stored.bytes
  listed : ∃ found, (area.within files).list "." = .ok found ∧
    ∀ file, file ∈ found ↔ ∃ e ∈ images, file = Image.fileName e.1

section Decidable

variable {area : Scratch} {images : List (String × StoredImage)} {files : Files}

theorem readsBack_iff : area.ReadsBack images files ↔
    files.locate area.path = .ok area.place ∧
    (∀ e ∈ images, files.read (Path.join area.path (Image.fileName e.1)) = .ok e.2.bytes ∧
      (area.within files).read (Path.join "." (Image.fileName e.1)) = .ok e.2.bytes) ∧
    ((area.within files).list ".").toOption.any (fun found =>
      decide (found ⊆ images.map (Image.fileName ·.1) ∧
        images.map (Image.fileName ·.1) ⊆ found)) = true := by
  have hlisted : (∃ found, (area.within files).list "." = .ok found ∧
      ∀ file, file ∈ found ↔ ∃ e ∈ images, file = Image.fileName e.1) ↔
      ((area.within files).list ".").toOption.any (fun found =>
        decide (found ⊆ images.map (Image.fileName ·.1) ∧
          images.map (Image.fileName ·.1) ⊆ found)) = true := by
    cases (area.within files).list "." with
    | error e => simp [Except.toOption]
    | ok found =>
      have hnames : ∀ file, (∃ e ∈ images, file = Image.fileName e.1) ↔
          file ∈ images.map (Image.fileName ·.1) := by
        intro file
        simp only [List.mem_map, eq_comm]
      simp only [hnames, Except.ok.injEq, exists_eq_left', Except.toOption, Option.any_some,
        decide_eq_true_eq, List.subset_def, iff_def, forall_and]
  rw [← hlisted]
  constructor
  · intro h
    exact ⟨h.located, fun e he => ⟨h.outside e.1 e.2 he, h.inside e.1 e.2 he⟩, h.listed⟩
  · rintro ⟨hlocated, hread, hlisted⟩
    exact ⟨hlocated, fun name stored he => (hread _ he).1, fun name stored he => (hread _ he).2,
      hlisted⟩

instance : Decidable (area.ReadsBack images files) := decidable_of_iff _ readsBack_iff.symm

end Decidable

theorem valid_of_persist {area : Scratch} {images : List (String × StoredImage)}
    {files written : Files} (h : area.persist images files = (written, .ok ())) :
    ∀ e ∈ images, Image.isValidName e.1 = true := by
  induction images generalizing files with
  | nil =>
    intro e he
    cases he
  | cons e rest ih =>
    rw [persist] at h
    split at h
    · next hvalid =>
      split at h
      · cases h
      · exact List.forall_mem_cons.2 ⟨hvalid, ih h⟩
    · cases h

end Scratch

namespace Resolver

variable {area : Scratch} {closure : Closure} {files : Files} {name : String}
  {stored : StoredImage} {found : List String}

/-- A file that still has the bytes of the closure passes the check of its digest. -/
theorem resolve_ofClosure_of_read {directory : String} (hstored : closure.get? name = some stored)
    (hread : files.read (Path.join directory (Image.fileName name)) = .ok stored.bytes)
    (hdigest : stored.digest = Digest.ofBytes stored.bytes) :
    (ofClosure files directory closure).resolve name = decoded name stored.bytes := by
  have hname : (ofClosure files directory closure).index.contains name = true :=
    List.contains_iff_mem.2 (NameMap.mem_keys.2 ⟨stored, hstored⟩)
  rw [resolve, if_pos hname]
  simp only [ofClosure, hstored, readAt, hread, bind, Except.bind, hdigest, if_true]

theorem resolve_ofClosure (hback : area.ReadsBack closure.images.entries files)
    (hstored : closure.get? name = some stored)
    (hdigest : stored.digest = Digest.ofBytes stored.bytes) :
    (ofClosure files area.path closure).resolve name = decoded name stored.bytes :=
  resolve_ofClosure_of_read hstored (hback.outside name stored (NameMap.mem_of_get? hstored))
    hdigest

theorem resolve_ofNames_of_read {directory : String}
    (hname : name ∈ (ofNames files directory found).index) {bytes : Bytes}
    (hread : files.read (Path.join directory (Image.fileName name)) = .ok bytes) :
    (ofNames files directory found).resolve name = decoded name bytes := by
  rw [resolve, if_pos (List.contains_iff_mem.2 hname)]
  simp only [ofNames, readAt, hread, bind, Except.bind]

theorem mem_index_ofNames {directory : String}
    (hvalid : ∀ e ∈ closure.images.entries, Image.isValidName e.1 = true)
    (hfound : ∀ file, file ∈ found ↔ ∃ e ∈ closure.images.entries, file = Image.fileName e.1) :
    name ∈ (ofNames files directory found).index ↔ name ∈ closure.names := by
  have hnames : name ∈ (ofNames files directory found).index ↔
      ∃ file ∈ found, imageName? file = some name := by
    change name ∈ (NameMap.ofList ((found.filterMap imageName?).map (·, ()))).keys ↔ _
    rw [NameMap.mem_keys_ofList, List.map_map]
    simp
  rw [hnames]
  constructor
  · rintro ⟨file, hfile, hname⟩
    obtain ⟨e, he, rfl⟩ := (hfound file).1 hfile
    rw [Image.imageName?_fileName (hvalid e he)] at hname
    exact Option.some.inj hname ▸ List.mem_map_of_mem he
  · intro h
    obtain ⟨e, he, rfl⟩ := List.mem_map.1 h
    exact ⟨_, (hfound _).2 ⟨e, he, rfl⟩, Image.imageName?_fileName (hvalid e he)⟩

/-- A name is resolved alike from the closure and from the files that are there, as long as both
read what the closure has. -/
theorem resolve_ofNames {files' : Files} {directory directory' : String}
    (hread : ∀ name stored, closure.get? name = some stored →
      files.read (Path.join directory (Image.fileName name)) = .ok stored.bytes)
    (hread' : ∀ name stored, closure.get? name = some stored →
      files'.read (Path.join directory' (Image.fileName name)) = .ok stored.bytes)
    (hvalid : ∀ e ∈ closure.images.entries, Image.isValidName e.1 = true)
    (hdigest : ∀ name stored, closure.get? name = some stored →
      stored.digest = Digest.ofBytes stored.bytes)
    (hfound : ∀ file, file ∈ found ↔ ∃ e ∈ closure.images.entries, file = Image.fileName e.1)
    (name : String) : (ofNames files' directory' found).resolve name =
      (ofClosure files directory closure).resolve name := by
  have hindex : name ∈ (ofNames files' directory' found).index ↔
      name ∈ (ofClosure files directory closure).index := mem_index_ofNames hvalid hfound
  cases hstored : closure.get? name with
  | some stored =>
    have hname := hindex.2 (NameMap.mem_keys.2 ⟨stored, hstored⟩)
    rw [resolve_ofNames_of_read hname (hread' name stored hstored),
      resolve_ofClosure_of_read hstored (hread name stored hstored) (hdigest name stored hstored)]
  | none =>
    have hname : name ∉ (ofClosure files directory closure).index := by
      intro h
      obtain ⟨stored, hsome⟩ := NameMap.mem_keys.1 h
      cases hstored.symm.trans hsome
    rw [resolve, resolve, if_neg (mt List.contains_iff_mem.1 (mt hindex.1 hname)),
      if_neg (mt List.contains_iff_mem.1 hname)]

theorem resolve_within (hback : area.ReadsBack closure.images.entries files)
    (hvalid : ∀ e ∈ closure.images.entries, Image.isValidName e.1 = true)
    (hdigest : ∀ name stored, closure.get? name = some stored →
      stored.digest = Digest.ofBytes stored.bytes)
    (hfound : ∀ file, file ∈ found ↔ ∃ e ∈ closure.images.entries, file = Image.fileName e.1)
    (name : String) : (ofNames (area.within files) "." found).resolve name =
      (ofClosure files area.path closure).resolve name :=
  resolve_ofNames
    (fun name stored hstored => hback.outside name stored (NameMap.mem_of_get? hstored))
    (fun name stored hstored => hback.inside name stored (NameMap.mem_of_get? hstored))
    hvalid hdigest hfound name

end Resolver

namespace Machine

theorem loadQueue_congr {r r' : Resolver} (h : ∀ name, r.resolve name = r'.resolve name)
    (loaded : List (String × Image)) (queue : List String) :
    loadQueue r loaded queue = loadQueue r' loaded queue := by
  fun_induction loadQueue r loaded queue with
  | case1 loaded => rw [loadQueue]
  | case2 loaded name rest hpresent ih =>
    rw [ih]
    conv_rhs => rw [loadQueue]
    rw [dif_pos hpresent]
  | case3 loaded name rest habsent fault hfault =>
    rw [loadQueue, dif_neg habsent]
    rw [h] at hfault
    split
    · next hother => rw [← Except.error.inj (hfault.symm.trans hother)]
    · next hother => cases hfault.symm.trans hother
  | case4 loaded name rest habsent image himage ih =>
    rw [ih]
    conv_rhs => rw [loadQueue]
    rw [dif_neg habsent]
    rw [h] at himage
    split
    · next hother => cases himage.symm.trans hother
    · next hother => rw [← Except.ok.inj (himage.symm.trans hother)]

theorem load_congr {r r' : Resolver} (h : ∀ name, r.resolve name = r'.resolve name)
    (entry : String) (depth : Nat) : load entry r depth = load entry r' depth := by
  rw [load, load, loadQueue_congr h]

theorem loadQueue_names {r : Resolver} {loaded images : List (String × Image)}
    {queue : List String} (h : loadQueue r loaded queue = .ok images) :
    (∀ name ∈ loaded.map (·.1), name ∈ images.map (·.1)) ∧
      ∀ name ∈ queue, name ∈ images.map (·.1) := by
  fun_induction loadQueue r loaded queue with
  | case1 loaded =>
    obtain rfl := Except.ok.inj h
    exact ⟨fun _ hname => hname, fun _ hname => by cases hname⟩
  | case2 loaded name rest hpresent ih =>
    obtain ⟨hloaded, hqueue⟩ := ih h
    exact ⟨hloaded, List.forall_mem_cons.2 ⟨hloaded name (mem_names.2 hpresent), hqueue⟩⟩
  | case3 => cases h
  | case4 loaded name rest _ image _ ih =>
    obtain ⟨hloaded, hqueue⟩ := ih h
    rw [List.map_append, List.forall_mem_append] at hloaded
    refine ⟨hloaded.1, List.forall_mem_cons.2 ⟨hloaded.2 name List.mem_cons_self, ?_⟩⟩
    exact fun other hother => hqueue other (List.mem_append_left _ hother)

variable {entry : String} {r : Resolver} {depth : Nat} {m : Machine}

theorem load_entry (h : load entry r depth = .ok m) : m.entry = entry := by
  unfold load at h
  split at h
  · cases h
  · obtain rfl := Except.ok.inj h
    rfl

/-- An image that refers to nothing is loaded alone. -/
theorem load_alone {image : Image} (h : r.resolve entry = .ok image)
    (hnone : image.references = []) :
    load entry r depth = .ok ⟨entry, [(entry, image)], min depth callDepthCeiling⟩ := by
  have hqueue : loadQueue r [] [entry] = .ok [(entry, image)] := by
    rw [loadQueue, dif_neg (by simp)]
    split
    · next hfault => cases h.symm.trans hfault
    · next found hfound =>
      obtain rfl := Except.ok.inj (h.symm.trans hfound)
      rw [hnone, List.append_nil, loadQueue]
      rfl
  rw [load, hqueue]

/-- A machine starts with the image that the closure holds under the name of the entry. -/
theorem image?_entry {closure : Closure} {image : Image} (hr : r.Serves closure)
    (hholds : closure.Holds entry image) (h : load entry r depth = .ok m) :
    m.image? m.entry = some image := by
  rw [load_entry h]
  have hloaded := (loadQueue_names (load_eq_ok h)).2 entry List.mem_cons_self
  obtain ⟨found, hfound⟩ := image?_of_mem hloaded
  rw [hfound, (hr _ _ (load_resolves h hfound)).unique hholds]

end Machine

/-- Every image is kept with the digest of its bytes. -/
def Store.Sealed (s : Store) : Prop :=
  ∀ name stored, NameMap.get? s name = some stored → stored.digest = Digest.ofBytes stored.bytes

section Pass

variable {order : Materialize.Order} {files : Files} {store after : Store} {u : SourceUnit}
  {closure : Closure}

theorem materialize_sealed (hstore : store.Sealed)
    (h : materialize order files store u = (.ok closure, after)) : Store.Sealed closure.images := by
  obtain ⟨q, hvisit, rfl⟩ := Materialize.materialize_eq_ok h
  intro name stored hstored
  have hfound : (q.images.get? name).or (NameMap.get? store name) = some stored := by
    rw [show q.images.get? name = some stored from hstored]
    rfl
  rcases (Materialize.root_settles hvisit).1.kept_or_obtained hfound with hold | hobtained
  · exact hstore name stored hold
  · obtain ⟨v, -, hobtains⟩ := hobtained
    rcases hobtains with ⟨-, _, _, bytes, -, -, -, rfl⟩ | ⟨_, -, -, bytes, _, -, -, rfl⟩
    · rfl
    · rfl

/-- The closure of a unit begins with the image that the unit was compiled to. -/
theorem materialize_entry (h : materialize order files store u = (.ok closure, after)) :
    closure.entry = u.name ∧ Image.isValidName u.name = true ∧
      ∃ interfaces image, compile u interfaces = .ok image ∧ closure.Holds u.name image := by
  obtain ⟨q, hvisit, rfl⟩ := Materialize.materialize_eq_ok h
  obtain ⟨hvalid, -, r, hall, hemit⟩ := Materialize.visit_eq_ok hvisit
  obtain ⟨hwalked, -⟩ :=
    Materialize.visitAll_walks u.references (Materialize.Pass.consistent_start store) hall
  obtain ⟨image, hcompile, hq, -, hheld⟩ := Materialize.emit_keeps hwalked.consistent hemit
  exact ⟨rfl, hvalid, _, image, hcompile, hq.holds u.name hheld⟩

end Pass

namespace Runner

/-- The runner loads in the area what is loaded from the closure outside. -/
theorem load_within {area : Scratch} {closure : Closure} {files : Files}
    (hback : area.ReadsBack closure.images.entries files)
    (hvalid : ∀ e ∈ closure.images.entries, Image.isValidName e.1 = true)
    (hsealed : Store.Sealed closure.images) (hentry : Image.isValidName closure.entry = true)
    (depth : Nat) : load (area.within files) (Image.fileName closure.entry) depth =
      match Machine.load closure.entry (Resolver.ofClosure files area.path closure) depth with
      | .error fault => .error (.unresolved fault)
      | .ok machine => .ok machine := by
  obtain ⟨found, hlist, hfound⟩ := hback.listed
  have hdirectory : Resolver.ofDirectory (area.within files) "." =
      .ok (Resolver.ofNames (area.within files) "." found) := by
    rw [Resolver.ofDirectory, hlist]
  have hsame := Machine.load_congr
    (Resolver.resolve_within hback hvalid hsealed hfound) closure.entry depth
  rw [load, Image.stem?_fileName hentry, Image.directoryOf_fileName hentry]
  cases hload : Machine.load closure.entry (Resolver.ofClosure files area.path closure) depth with
  | error fault => simp only [hdirectory, String.ofList_toList, hsame, hload]
  | ok m => simp only [hdirectory, String.ofList_toList, hsame, hload]

end Runner

end TestBench
