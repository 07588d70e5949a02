import TestBench.Proofs.StoreEffect

/-!
What a store can hold. Images get into a store in two ways: a unit is compiled,
or a file is read that has been checked. Either way the bytes decode to an image
of the name that they are kept under, and passes and removals add nothing else.
So an entry that is found again needs no second check, and a fault about an
image is a fault of the file that it names.
-/
namespace TestBench

/-- The bytes are those of an image of this name, and the digest is theirs. -/
structure StoredImage.Genuine (stored : StoredImage) (name : String) : Prop where
  valid : Image.isValidName name = true
  name_eq : stored.name = name
  digest_eq : stored.digest = Digest.ofBytes stored.bytes
  decodes : ∃ image, Image.decode stored.bytes = .ok image ∧ image.name = name

theorem StoredImage.genuine_ofBytes {name : String} {bytes : Bytes} {image : Image}
    (hvalid : Image.isValidName name = true) (hdecode : Image.decode bytes = .ok image)
    (hname : image.name = name) : (ofBytes name bytes).Genuine name :=
  ⟨hvalid, rfl, rfl, image, hdecode, hname⟩

namespace Store

/-- Every entry is genuine under its name. -/
def Genuine (s : Store) : Prop :=
  ∀ name stored, NameMap.get? s name = some stored → stored.Genuine name

variable {s : Store}

theorem genuine_empty : empty.Genuine := by
  intro name stored hstored
  cases hstored

theorem Genuine.insert (h : s.Genuine) {name : String} {stored : StoredImage}
    (hstored : stored.Genuine name) : Genuine (NameMap.insert s name stored) := by
  intro other found hfound
  rw [NameMap.get?_insert] at hfound
  split at hfound
  · next heq =>
    obtain rfl := Option.some.inj hfound
    exact heq ▸ hstored
  · exact h other found hfound

theorem Genuine.remove (h : s.Genuine) (name : String) : (s.remove name).2.Genuine := by
  intro other found hfound
  simp only [Store.remove, NameMap.get?_erase] at hfound
  split at hfound
  · cases hfound
  · exact h other found hfound

theorem Genuine.removeIf (h : s.Genuine) (name : String) (p : StoredImage → Bool) :
    (s.removeIf name p).2.Genuine := by
  unfold Store.removeIf
  split
  · split
    · exact h.remove name
    · exact h
  · exact h

end Store

/-- If the fault is about a file, then this is what the file is like. -/
def MaterializeFault.InFile (files : Files) : MaterializeFault → Prop
  | .unreadable name path error => binaryName path = name ∧ files.read path = .error error
  | .badImage name path defect => binaryName path = name ∧
    ∃ bytes, files.read path = .ok bytes ∧ Image.decode bytes = .error defect
  | .misnamed path expected found => binaryName path = expected ∧ found ≠ expected ∧
    ∃ bytes image, files.read path = .ok bytes ∧ Image.decode bytes = .ok image ∧
      image.name = found
  | _ => True

namespace Materialize

/-- The store is as it should be after the step, and if the step failed, then not because of what
the store had held. -/
structure Careful (files : Files) (s : Step) : Prop where
  genuine : s.2.store.Genuine
  inFile : ∀ e, s.1 = .error e → e.InFile files

section Steps

variable {files : Files} {p : Pass}

theorem Careful.ok (h : p.store.Genuine) : Careful files (.ok (), p) :=
  ⟨h, fun e he => by cases he⟩

theorem Careful.error (h : p.store.Genuine) {e : MaterializeFault} (he : e.InFile files) :
    Careful files (.error e, p) := by
  refine ⟨h, ?_⟩
  rintro other hother
  obtain rfl := Except.error.inj hother
  exact he

theorem readBinary_of_genuine {stored : StoredImage} {name : String} (h : stored.Genuine name)
    (path : String) : ∃ image, readBinary name path stored.bytes = .ok image := by
  obtain ⟨image, hdecode, hname⟩ := h.decodes
  exact ⟨image, readBinary_eq_ok.2 ⟨hdecode, hname⟩⟩

theorem readBinary_inFile {path : String} {bytes : Bytes} {e : MaterializeFault}
    (hread : files.read path = .ok bytes)
    (h : readBinary (binaryName path) path bytes = .error e) : e.InFile files := by
  unfold readBinary at h
  split at h
  · next defect hdefect =>
    obtain rfl := Except.error.inj h
    exact ⟨rfl, bytes, hread, hdefect⟩
  · next image himage =>
    split at h
    · cases h
    · next hname =>
      obtain rfl := Except.error.inj h
      exact ⟨rfl, hname, bytes, image, hread, himage, rfl⟩

theorem load_inFile {path : String} {e : MaterializeFault}
    (h : load files (binaryName path) path = .error e) : e.InFile files := by
  unfold load at h
  split at h
  · next error herror =>
    obtain rfl := Except.error.inj h
    exact ⟨rfl, herror⟩
  · next bytes hread =>
    cases himage : readBinary (binaryName path) path bytes with
    | error fault =>
      rw [himage] at h
      obtain rfl := Except.error.inj h
      exact readBinary_inFile hread himage
    | ok image =>
      rw [himage] at h
      cases h

/-- What the store has needs no check. -/
theorem readBinary_careful {path : String} {store : Store} {stored : StoredImage}
    (hstore : store.Genuine) (hstored : stored.Genuine (binaryName path)) :
    Careful files
      (match readBinary (binaryName path) path stored.bytes with
        | .error e => (.error e, { p with store })
        | .ok image => (.ok (), { p with store }.addImage (binaryName path) stored image)) := by
  obtain ⟨image, himage⟩ := readBinary_of_genuine hstored path
  rw [himage]
  exact .ok hstore

theorem addBinary_careful {path : String} (hp : p.store.Genuine)
    (hvalid : Image.isValidName (binaryName path) = true) :
    Careful files (addBinary files (binaryName path) path p) := by
  unfold addBinary
  cases hfound : p.store.getOrAdd (binaryName path) fun _ => load files (binaryName path) path with
  | mk result store =>
    rcases Store.getOrAdd_cases hfound with
      ⟨stored, hsome, rfl, rfl⟩ | ⟨stored, _, hload, rfl, rfl⟩ | ⟨e, hload, rfl, rfl⟩
    · exact readBinary_careful hp (hp _ _ hsome)
    · obtain ⟨bytes, image, _, himage, rfl⟩ := load_eq_ok hload
      obtain ⟨hdecode, hname⟩ := readBinary_eq_ok.1 himage
      have hstored := StoredImage.genuine_ofBytes hvalid hdecode hname
      exact readBinary_careful (hp.insert hstored) hstored
    · exact .error hp (load_inFile hload)

theorem emit_careful (u : SourceUnit) (hp : p.store.Genuine)
    (hvalid : Image.isValidName u.name = true) : Careful files (emit u p) := by
  unfold emit
  split
  · exact .error hp trivial
  · next image himage =>
    split
    · exact .error hp trivial
    · next bytes hbytes =>
      obtain ⟨_, _, haccepted⟩ := Compile.accepted_of_compile himage
      exact .ok (hp.insert (StoredImage.genuine_ofBytes hvalid (Image.decode_encode? hbytes)
        haccepted.name_eq))

theorem evict_genuine (hp : p.store.Genuine) (name : String) (seen : List StoredImage) :
    (p.evict name seen).store.Genuine := hp.removeIf name seen.contains

end Steps

mutual

theorem visit_careful {files : Files} : ∀ (u : SourceUnit) {stack : List String} {p : Pass},
    p.store.Genuine → Careful files (visit files u stack p)
  | .mk name sources references, stack, p, hp => by
    rw [visit]
    split
    · exact .error hp trivial
    next hvalid =>
    split
    · exact .error hp trivial
    have hvalid : Image.isValidName name = true := by simpa using hvalid
    have hall : Careful files (visitAll files references (stack ++ [name]) p) :=
      visitAll_careful references hp
    cases hwalk : visitAll files references (stack ++ [name]) p with
    | mk walked r =>
      rw [hwalk] at hall
      cases walked with
      | error e => exact .error (evict_genuine hall.genuine _ _) (hall.inFile e rfl)
      | ok _ =>
        have hemit : Careful files (emit (.mk name sources references) r) :=
          emit_careful _ hall.genuine hvalid
        simp only
        cases hlast : emit (.mk name sources references) r with
        | mk emitted q =>
          rw [hlast] at hemit
          cases emitted with
          | error e => exact .error (evict_genuine hemit.genuine _ _) (hemit.inFile e rfl)
          | ok _ => exact .ok hemit.genuine

theorem visitAll_careful {files : Files} : ∀ (references : List Reference)
    {stack : List String} {p : Pass}, p.store.Genuine →
      Careful files (visitAll files references stack p)
  | [], stack, p, hp => .ok hp
  | r :: rest, stack, p, hp => by
    have hfirst : Careful files (visitReference files r stack p) := visitReference_careful r hp
    rw [visitAll]
    cases hstep : visitReference files r stack p with
    | mk result between =>
      rw [hstep] at hfirst
      cases result with
      | error e => exact hfirst
      | ok _ => exact visitAll_careful rest hfirst.genuine

theorem visitReference_careful {files : Files} : ∀ (r : Reference) {stack : List String}
    {p : Pass}, p.store.Genuine → Careful files (visitReference files r stack p)
  | .unit u, stack, p, hp => by
    rw [visitReference]
    split
    · exact .error hp trivial
    split
    · exact .error hp trivial
    split
    · exact .ok hp
    · exact visit_careful u hp
  | .binary path, stack, p, hp => by
    rw [visitReference]
    split
    · exact .error hp trivial
    next hvalid =>
    split
    · exact .ok hp
    · exact addBinary_careful hp (by simpa using hvalid)

end

/-- A pass keeps a store genuine, however it ends. -/
theorem materialize_careful (order : Order) (files : Files) {store : Store} (u : SourceUnit)
    (h : store.Genuine) : (materialize order files store u).2.Genuine ∧
      ∀ e, (materialize order files store u).1 = .error e → e.InFile files := by
  have hvisit : Careful files (visit files u [] (.start store)) := visit_careful u h
  cases hrun : materialize order files store u with
  | mk outcome after =>
    obtain ⟨q, ⟨e, hq, rfl, rfl⟩ | ⟨hq, ⟨image, missing, rfl, rfl⟩ | ⟨rfl, rfl⟩⟩⟩ :=
      materialize_cases hrun
    · rw [hq] at hvisit
      refine ⟨hvisit.genuine, fun other hother => ?_⟩
      exact Except.error.inj hother ▸ hvisit.inFile e rfl
    · rw [hq] at hvisit
      refine ⟨evict_genuine hvisit.genuine _ _, fun other hother => ?_⟩
      obtain rfl := Except.error.inj hother
      trivial
    · rw [hq] at hvisit
      exact ⟨hvisit.genuine, fun other hother => by cases hother⟩

end Materialize

/-- A closure has nothing but what the store has after the pass. -/
theorem materialize_genuine {order : Materialize.Order} {files : Files} {store after : Store}
    {u : SourceUnit} {closure : Closure} (hstore : store.Genuine)
    (h : materialize order files store u = (.ok closure, after)) :
    Store.Genuine closure.images := by
  have hafter : after.Genuine := by
    rw [← show (materialize order files store u).2 = after by rw [h]]
    exact (Materialize.materialize_careful order files u hstore).1
  intro name stored hstored
  refine hafter name stored ?_
  obtain ⟨q, ⟨e, -, herror, -⟩ | ⟨hvisit, ⟨_, _, herror, -⟩ | ⟨hclosure, rfl⟩⟩⟩ :=
    Materialize.materialize_cases h
  · cases herror
  · cases herror
  · obtain rfl := Except.ok.inj hclosure
    obtain ⟨hsettled, hcomplete⟩ := Materialize.root_settles hvisit
    rw [hsettled.covers (hcomplete rfl) name, hstored, Option.some_or]

/-- What is done with a store that is kept. Every pass sees the files as they are then. -/
inductive StoreCall where
  | materialize (order : Materialize.Order) (files : Files) (u : SourceUnit)
  | remove (name : String)
  | removeIf (name : String) (p : StoredImage → Bool)
  | clear

namespace Store

/-- The store after a call. -/
def after (s : Store) : StoreCall → Store
  | .materialize order files u => (materialize order files s u).2
  | .remove name => (s.remove name).2
  | .removeIf name p => (s.removeIf name p).2
  | .clear => empty

/-- The store after calls, the first of them first. -/
def afterAll (s : Store) (calls : List StoreCall) : Store := calls.foldl after s

theorem Genuine.after {s : Store} (h : s.Genuine) (call : StoreCall) : (s.after call).Genuine := by
  cases call with
  | materialize order files u => exact (Materialize.materialize_careful order files u h).1
  | remove name => exact h.remove name
  | removeIf name p => exact h.removeIf name p
  | clear => exact genuine_empty

theorem Genuine.afterAll {s : Store} (h : s.Genuine) (calls : List StoreCall) :
    (s.afterAll calls).Genuine := by
  induction calls generalizing s with
  | nil => exact h
  | cons call rest ih => exact ih (h.after call)

end Store

/-- Whatever is done with an empty store, its entries are images of their names with their digests,
and a pass that cannot use an image has found it in a file. -/
theorem afterAll_genuine (calls : List StoreCall) :
    (Store.empty.afterAll calls).Genuine ∧
    ∀ (order : Materialize.Order) (files : Files) (u : SourceUnit) (e : MaterializeFault),
      (materialize order files (Store.empty.afterAll calls) u).1 = .error e → e.InFile files := by
  have hgenuine := Store.genuine_empty.afterAll calls
  exact ⟨hgenuine, fun order files u =>
    (Materialize.materialize_careful order files u hgenuine).2⟩

def inkImage : Image := ⟨"Ink", [], [⟨"Ink", [], [], [⟨"dry", 0, 0, [], [], 1⟩]⟩]⟩

/-- A directory with the image of one unit under the name of another. -/
def swappedFiles : Files := Files.fresh.putFile ["work", "Quill.tdi"] inkImage.bytes false

def letterUnit : SourceUnit :=
  .mk "Letter" [⟨"l.tdl", "class Letter \x7b \x7d"⟩] [.binary "Quill.tdi"]

def inkCalls : List StoreCall :=
  [.materialize .sorted .fresh smearedUnit, .materialize .sorted .fresh inkUnit,
    .remove "Quill", .materialize .sorted swappedFiles letterUnit]

theorem letterUnit_fault :
    (match (materialize .sorted swappedFiles (Store.empty.afterAll inkCalls) letterUnit).1 with
      | .error e => decide (e = .misnamed "Quill.tdi" "Quill" "Ink")
      | .ok _ => false) = true := by
  decide +kernel

theorem afterAll_genuine_ink :
    (∃ stored, NameMap.get? (Store.empty.afterAll inkCalls) "Ink" = some stored ∧
      stored.Genuine "Ink") ∧
    (materialize .sorted swappedFiles (Store.empty.afterAll inkCalls) letterUnit).1 =
        .error (.misnamed "Quill.tdi" "Quill" "Ink") ∧
      (MaterializeFault.misnamed "Quill.tdi" "Quill" "Ink").InFile swappedFiles := by
  obtain ⟨hgenuine, hfaults⟩ := afterAll_genuine inkCalls
  have hkept : (NameMap.get? (Store.empty.afterAll inkCalls) "Ink").isSome = true := by
    decide +kernel
  obtain ⟨stored, hstored⟩ := Option.isSome_iff_exists.1 hkept
  have hfault : (materialize .sorted swappedFiles (Store.empty.afterAll inkCalls) letterUnit).1 =
      .error (.misnamed "Quill.tdi" "Quill" "Ink") := by
    have hcheck := letterUnit_fault
    split at hcheck
    · next e he => rw [he, of_decide_eq_true hcheck]
    · cases hcheck
  exact ⟨⟨stored, hstored, hgenuine "Ink" stored hstored⟩, hfault,
    hfaults .sorted swappedFiles letterUnit _ hfault⟩

end TestBench
