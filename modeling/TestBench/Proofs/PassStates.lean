import TestBench.Proofs.ImageRoundTrip
import TestBench.Proofs.WellFormedImages
import TestBench.Store.Materialize

/-!
States of a materialization pass. What a pass has decoded it also holds as
bytes, under the name of the image, and these bytes decode to the same image.
The steps that add an image keep this, whether the image was read from a binary
reference or compiled, and change nothing under any other name.
-/
namespace TestBench

namespace NameMap

variable {α : Type}

theorem find?_insertInto (key other : String) (value : α) (entries : List (String × α)) :
    find? (insertInto key value entries) other =
      if other = key then some value else find? entries other := by
  induction entries with
  | nil =>
    by_cases heq : other = key
    · simp [insertInto, find?, heq]
    · simp [insertInto, find?, heq, Ne.symm heq]
  | cons e rest ih =>
    rw [insertInto]
    split
    · by_cases heq : other = key
      · simp [find?, heq]
      · simp [find?, List.find?_cons, heq, beq_eq_false_iff_ne.2 (Ne.symm heq)]
    split
    · next hkey =>
      by_cases heq : other = key
      · simp [find?, heq]
      · have hne : e.1 ≠ other := fun h => heq (h.symm.trans hkey.symm)
        simp [find?, heq, beq_eq_false_iff_ne.2 (Ne.symm heq), beq_eq_false_iff_ne.2 hne]
    · next hkey =>
      by_cases hother : e.1 = other
      · have hne : other ≠ key := fun h => hkey (h.symm.trans hother.symm)
        simp [find?, hother, hne]
      · have hskip : ∀ more : List (String × α), find? (e :: more) other = find? more other :=
          fun more => by simp [find?, beq_eq_false_iff_ne.2 hother]
        rw [hskip, hskip, ih]

theorem get?_insert (m : NameMap α) (key other : String) (value : α) :
    (m.insert key value).get? other = if other = key then some value else m.get? other :=
  find?_insertInto key other value m.entries

theorem contains_eq_false {m : NameMap α} {key : String} :
    m.contains key = false ↔ m.get? key = none := by
  rw [contains, Option.isSome_eq_false_iff, Option.isNone_iff_eq_none]

end NameMap

namespace Closure

/-- The closure holds bytes of this image under a name. -/
def Holds (c : Closure) (name : String) (image : Image) : Prop :=
  ∃ stored, c.get? name = some stored ∧ Image.decode stored.bytes = .ok image

theorem Holds.unique {c : Closure} {name : String} {image other : Image} (h : c.Holds name image)
    (hother : c.Holds name other) : image = other := by
  obtain ⟨stored, hstored, hdecode⟩ := h
  obtain ⟨stored', hstored', hdecode'⟩ := hother
  obtain rfl := Option.some.inj (hstored.symm.trans hstored')
  exact Except.ok.inj (hdecode.symm.trans hdecode')

/-- The closure has an image of the unit, which has the method with as many parameters. -/
def Offers (c : Closure) (target : Code.Target) (count : Nat) : Prop :=
  ∃ image, c.Holds target.unit image ∧ image.Declares target.typeName target.method count

end Closure

namespace Materialize

namespace Pass

/-- What is decoded has the name it is found under and is what the bytes there decode to. -/
structure Consistent (p : Pass) : Prop where
  name_eq : ∀ name image, p.decoded.get? name = some image → image.name = name
  bytes : ∀ name image, p.decoded.get? name = some image →
    ∃ stored, p.images.get? name = some stored ∧ Image.decode stored.bytes = .ok image

theorem consistent_start (store : Store) : (start store).Consistent := by
  refine ⟨?_, ?_⟩
  all_goals
    intro name image h
    cases h

/-- Everything that was decoded is still there, except perhaps under one name. -/
def KeepsBut (name : String) (p q : Pass) : Prop :=
  ∀ other image, other ≠ name → p.decoded.get? other = some image →
    q.decoded.get? other = some image

/-- Everything that was decoded is still there. -/
def Grows (p q : Pass) : Prop :=
  ∀ name image, p.decoded.get? name = some image → q.decoded.get? name = some image

theorem Grows.trans {p q r : Pass} (h : p.Grows q) (h' : q.Grows r) : p.Grows r :=
  fun name image hp => h' name image (h name image hp)

variable {p : Pass} {name : String} {stored : StoredImage} {image : Image}

theorem decoded_addImage (other : String) : (p.addImage name stored image).decoded.get? other =
    if other = name then some image else p.decoded.get? other :=
  NameMap.get?_insert _ _ _ _

theorem keepsBut_addImage (p : Pass) (name : String) (stored : StoredImage) (image : Image) :
    KeepsBut name p (p.addImage name stored image) := by
  intro other found hne hfound
  rw [decoded_addImage, if_neg hne, hfound]

theorem Consistent.addImage (hp : p.Consistent) (hname : image.name = name)
    (hdecode : Image.decode stored.bytes = .ok image) :
    (p.addImage name stored image).Consistent := by
  refine ⟨?_, ?_⟩
  · intro other found hfound
    rw [decoded_addImage] at hfound
    split at hfound
    · next heq =>
      obtain rfl := Option.some.inj hfound
      exact hname.trans heq.symm
    · exact hp.name_eq other found hfound
  · intro other found hfound
    rw [decoded_addImage] at hfound
    change ∃ s, (p.images.insert name stored).get? other = some s ∧ _
    rw [NameMap.get?_insert]
    split at hfound
    · next heq =>
      obtain rfl := Option.some.inj hfound
      exact ⟨stored, if_pos heq, hdecode⟩
    · next hne =>
      rw [if_neg hne]
      exact hp.bytes other found hfound

theorem Consistent.store (hp : p.Consistent) (store : Store) :
    ({ p with store } : Pass).Consistent := ⟨hp.name_eq, hp.bytes⟩

/-- A name without bytes has nothing decoded under it. -/
theorem Consistent.decoded_eq_none (hp : p.Consistent) (h : p.images.contains name = false) :
    p.decoded.get? name = none := by
  cases hfound : p.decoded.get? name with
  | none => rfl
  | some image =>
    obtain ⟨stored, hstored, _⟩ := hp.bytes name image hfound
    rw [NameMap.contains_eq_false.1 h] at hstored
    cases hstored

/-- Nothing is lost by keeping all but a name that nothing was decoded under. -/
theorem KeepsBut.grows {q : Pass} (h : KeepsBut name p q) (hnone : p.decoded.get? name = none) :
    p.Grows q := by
  intro other image hfound
  refine h other image ?_ hfound
  rintro rfl
  rw [hnone] at hfound
  cases hfound

end Pass

theorem readBinary_eq_ok {name path : String} {bytes : Bytes} {image : Image} :
    readBinary name path bytes = .ok image ↔
      Image.decode bytes = .ok image ∧ image.name = name := by
  unfold readBinary
  split
  · next defect hdefect => simp [hdefect]
  · next found hfound =>
    split
    · next hname =>
      rw [hfound, Except.ok.injEq]
      constructor
      · rintro rfl
        exact ⟨rfl, hname⟩
      · rintro ⟨h, _⟩
        exact Except.ok.inj h
    · next hname =>
      rw [hfound, Except.ok.injEq]
      constructor
      · intro h
        cases h
      · rintro ⟨rfl, h⟩
        exact absurd h hname

/-- A binary reference that could be read adds its image and nothing else. -/
theorem addBinary_keeps {files : Files} {name path : String} {p q : Pass} (hp : p.Consistent)
    (h : addBinary files name path p = (.ok (), q)) : q.Consistent ∧ p.KeepsBut name q := by
  unfold addBinary at h
  split at h
  · cases h
  · next stored store hstored =>
    simp only at h
    split at h
    · cases h
    · next image himage =>
      obtain rfl := (Prod.mk.inj h).2
      obtain ⟨hdecode, hname⟩ := readBinary_eq_ok.1 himage
      exact ⟨(hp.store store).addImage hname hdecode,
        Pass.keepsBut_addImage { p with store } name stored image⟩

/-- A unit that was emitted has its image under its name, and nothing else has changed. -/
theorem emit_keeps {u : SourceUnit} {p q : Pass} (hp : p.Consistent)
    (h : emit u p = (.ok (), q)) :
    ∃ image, compile u (interfaces p.decoded u.references) = .ok image ∧ q.Consistent ∧
      p.KeepsBut u.name q ∧ q.decoded.get? u.name = some image := by
  unfold emit at h
  split at h
  · cases h
  · next image himage =>
    split at h
    · cases h
    · next bytes hbytes =>
      obtain rfl := (Prod.mk.inj h).2
      obtain ⟨files, _, haccepted⟩ := Compile.accepted_of_compile himage
      let stored := StoredImage.ofBytes u.name bytes
      have hdecode : Image.decode stored.bytes = .ok image := Image.decode_encode? hbytes
      refine ⟨image, himage, ?_, ?_, ?_⟩
      · exact (hp.store (p.store.add stored)).addImage haccepted.name_eq hdecode
      · exact Pass.keepsBut_addImage { p with store := p.store.add stored } u.name stored image
      · rw [Pass.decoded_addImage, if_pos rfl]

section Steps

variable {files : Files} {stack : List String} {p q : Pass}

theorem visit_eq_ok {u : SourceUnit} (h : visit files u stack p = (.ok (), q)) :
    Image.isValidName u.name = true ∧ u.name ∉ stack ∧ ∃ r,
      visitAll files u.references (stack ++ [u.name]) p = (.ok (), r) ∧
        emit u r = (.ok (), q) := by
  obtain ⟨name, sources, references⟩ := u
  rw [visit] at h
  split at h
  · cases h
  split at h
  · cases h
  next hvalid hfresh =>
    change Image.isValidName name = true ∧ name ∉ stack ∧ ∃ r,
      visitAll files references (stack ++ [name]) p = (.ok (), r) ∧
        emit (.mk name sources references) r = (.ok (), q)
    refine ⟨by simpa using hvalid, by simpa using hfresh, ?_⟩
    cases hall : visitAll files references (stack ++ [name]) p with
    | mk result r =>
      rw [hall] at h
      cases result with
      | error e => cases h
      | ok _ =>
        simp only at h
        cases hemit : emit (.mk name sources references) r with
        | mk emitted last =>
          rw [hemit] at h
          cases emitted with
          | error e => cases h
          | ok _ => exact ⟨r, rfl, hemit.trans h⟩

theorem visitAll_cons_eq_ok {r : Reference} {rest : List Reference}
    (h : visitAll files (r :: rest) stack p = (.ok (), q)) :
    ∃ between, visitReference files r stack p = (.ok (), between) ∧
      visitAll files rest stack between = (.ok (), q) := by
  rw [visitAll] at h
  cases hfirst : visitReference files r stack p with
  | mk result between =>
    rw [hfirst] at h
    cases result with
    | error e => cases h
    | ok _ => exact ⟨between, rfl, h⟩

theorem visitReference_unit_eq_ok {u : SourceUnit}
    (h : visitReference files (.unit u) stack p = (.ok (), q)) :
    u.name ∉ stack ∧ (p.images.contains u.name = true ∧ q = p ∨
      p.images.contains u.name = false ∧ visit files u stack p = (.ok (), q)) := by
  rw [visitReference] at h
  split at h
  · cases h
  split at h
  · cases h
  next hfresh =>
    refine ⟨by simpa using hfresh, ?_⟩
    split at h
    · next hdone => exact Or.inl ⟨hdone, (Prod.mk.inj h).2.symm⟩
    · next hnew => exact Or.inr ⟨Bool.eq_false_iff.2 hnew, h⟩

theorem visitReference_binary_eq_ok {path : String}
    (h : visitReference files (.binary path) stack p = (.ok (), q)) :
    p.images.contains (binaryName path) = true ∧ q = p ∨
      p.images.contains (binaryName path) = false ∧
        addBinary files (binaryName path) path p = (.ok (), q) := by
  rw [visitReference] at h
  split at h
  · cases h
  split at h
  · next hdone => exact Or.inl ⟨hdone, (Prod.mk.inj h).2.symm⟩
  · next hnew => exact Or.inr ⟨Bool.eq_false_iff.2 hnew, h⟩

end Steps

/-- A unit is compiled against its references as far as they are decoded. -/
theorem mem_interfaces {decoded : NameMap Image} {references : List Reference} {i : Image}
    (h : i ∈ interfaces decoded references) : ∃ r ∈ references, decoded.get? r.name = some i := by
  have hfold : ∀ (images found : List Image), i ∈ images.foldl (fun found image =>
      if found.any (·.name == image.name) then found else found ++ [image]) found →
        i ∈ found ∨ i ∈ images := by
    intro images
    induction images with
    | nil => exact fun found hi => Or.inl hi
    | cons image rest ih =>
      intro found hi
      rcases ih _ hi with hi | hi
      · dsimp only at hi
        split at hi
        · exact Or.inl hi
        · rcases List.mem_append.1 hi with hi | hi
          · exact Or.inl hi
          · exact Or.inr (List.mem_cons.2 (Or.inl (List.mem_singleton.1 hi)))
      · exact Or.inr (List.mem_cons_of_mem _ hi)
  rcases hfold _ _ h with hi | hi
  · cases hi
  · obtain ⟨r, hr, hdecoded⟩ := List.mem_filterMap.1 hi
    exact ⟨r, hr, hdecoded⟩

section Looking

variable {order : Order} {p : Pass}

theorem Order.mem_arrange {images : List Image} {image : Image} :
    image ∈ order.arrange images ↔ image ∈ images := (order.perm images).mem_iff

/-- Whether a reference is missing is the same in every order. -/
theorem dangling?_eq_none_iff : dangling? order p = none ↔
    ∀ image ∈ p.decoded.values, ∀ r ∈ image.references, p.images.contains r = true := by
  simp [dangling?, List.findSome?_eq_none_iff, Order.mem_arrange]

/-- The reference that is named is one that is missing. -/
theorem dangling?_eq_some {name missing : String} (h : dangling? order p = some (name, missing)) :
    ∃ image ∈ p.decoded.values, image.name = name ∧ missing ∈ image.references ∧
      p.images.contains missing = false := by
  obtain ⟨image, himage, hfound⟩ := List.exists_of_findSome?_eq_some h
  obtain ⟨r, hr, hnamed⟩ := Option.map_eq_some_iff.1 hfound
  obtain ⟨rfl, rfl⟩ := Prod.mk.inj hnamed
  exact ⟨image, Order.mem_arrange.1 himage, rfl, List.mem_of_find?_eq_some hr,
    by simpa using List.find?_some hr⟩

end Looking

end Materialize

end TestBench
