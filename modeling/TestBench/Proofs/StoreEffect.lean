import TestBench.Proofs.PassStates

/-!
What a pass leaves in the store. As long as nothing fails, the store is the old
one with the images of the pass put over it. A visit that fails takes its own
name out again, whether the image there was an old one or one of the pass, and
touches no other name; so afterwards exactly the names of the visits that were
begun and not completed are missing.
-/
namespace TestBench

namespace NameMap

variable {α : Type}

theorem get?_erase (m : NameMap α) (key other : String) :
    (m.erase key).get? other = if other = key then none else m.get? other := by
  have hfilter : ∀ entries : List (String × α), find? (entries.filter (·.1 != key)) other =
      if other = key then none else find? entries other := by
    intro entries
    induction entries with
    | nil => simp [find?]
    | cons e rest ih =>
      by_cases hkey : e.1 = key
      · rw [List.filter_cons_of_neg (by simp [hkey]), ih]
        split
        · rfl
        · next hother =>
          simp only [find?, List.find?_cons, beq_eq_false_iff_ne.2 (hkey ▸ Ne.symm hother)]
      · rw [List.filter_cons_of_pos (by simpa using hkey)]
        by_cases hother : e.1 = other
        · rw [if_neg fun h => hkey (hother.trans h)]
          simp [find?, hother]
        · have hskip : ∀ more : List (String × α), find? (e :: more) other = find? more other :=
            fun more => by simp [find?, beq_eq_false_iff_ne.2 hother]
          rw [hskip, hskip, ih]
  exact hfilter m.entries

end NameMap

namespace Store

/-- What is there is found; otherwise what is made is kept, if it can be made. -/
theorem getOrAdd_cases {ε : Type} {s s' : Store} {name : String}
    {make : Unit → Except ε StoredImage} {result : Except ε StoredImage}
    (h : s.getOrAdd name make = (result, s')) :
    (∃ stored, NameMap.get? s name = some stored ∧ result = .ok stored ∧ s' = s) ∨
    (∃ stored, NameMap.get? s name = none ∧ make () = .ok stored ∧ result = .ok stored ∧
      s' = NameMap.insert s name stored) ∨
    ∃ e, make () = .error e ∧ result = .error e ∧ s' = s := by
  unfold getOrAdd at h
  split at h
  · next stored hfound =>
    obtain ⟨rfl, rfl⟩ := Prod.mk.inj h
    exact Or.inl ⟨stored, hfound, rfl, rfl⟩
  · next hnone =>
    split at h
    · next stored hmake =>
      obtain ⟨rfl, rfl⟩ := Prod.mk.inj h
      exact Or.inr (Or.inl ⟨stored, hnone, hmake, rfl, rfl⟩)
    · next e hmake =>
      obtain ⟨rfl, rfl⟩ := Prod.mk.inj h
      exact Or.inr (Or.inr ⟨e, hmake, rfl, rfl⟩)

end Store

namespace Materialize

namespace Pass

variable {p : Pass} {name other : String} {seen : List StoredImage}

theorem evict_images (p : Pass) (name : String) (seen : List StoredImage) :
    (p.evict name seen).images = p.images := rfl

theorem get?_evict (p : Pass) (name other : String) (seen : List StoredImage) :
    (p.evict name seen).store.get? other = p.store.get? other ∨
      other = name ∧ (p.evict name seen).store.get? other = none := by
  change NameMap.get? (p.store.removeIf name seen.contains).2 other = _ ∨ _ ∧
    NameMap.get? (p.store.removeIf name seen.contains).2 other = none
  unfold Store.removeIf
  split
  · split
    · simp only [Store.remove, NameMap.get?_erase]
      by_cases hother : other = name
      · exact Or.inr ⟨hother, if_pos hother⟩
      · exact Or.inl (if_neg hother)
    · exact Or.inl rfl
  · exact Or.inl rfl

/-- A name whose image was seen has none afterwards. -/
theorem get?_evict_self (h : ∀ stored, p.store.get? name = some stored → stored ∈ seen) :
    (p.evict name seen).store.get? name = none := by
  change NameMap.get? (p.store.removeIf name seen.contains).2 name = none
  unfold Store.removeIf
  split
  · next stored hstored =>
    rw [if_pos (List.contains_iff_mem.2 (h stored hstored))]
    simp only [Store.remove, NameMap.get?_erase, if_true]
  · next hnone => exact hnone

theorem get?_evict_none (h : p.store.get? other = none) :
    (p.evict name seen).store.get? other = none := by
  rcases get?_evict p name other seen with heq | ⟨_, heq⟩
  · rw [heq, h]
  · exact heq

theorem get?_evict_other (h : other ≠ name) :
    (p.evict name seen).store.get? other = p.store.get? other := by
  rcases get?_evict p name other seen with heq | ⟨hname, _⟩
  · exact heq
  · exact absurd hname h

/-- The store is an old one with the images of the pass put over it. -/
def Covers (old : Store) (p : Pass) : Prop :=
  ∀ name, p.store.get? name = (p.images.get? name).or (NameMap.get? old name)

theorem covers_start (store : Store) : Covers store (start store) := fun _ => rfl

/-- An image that goes to both the store and the pass. -/
theorem Covers.addImage {old store : Store} {stored : StoredImage} (hp : p.Covers old)
    (hstore : ∀ other, NameMap.get? store other =
      if other = name then some stored else p.store.get? other) (image : Image) :
    ({ p with store }.addImage name stored image).Covers old := by
  intro other
  change NameMap.get? store other = ((p.images.insert name stored).get? other).or _
  rw [hstore, NameMap.get?_insert]
  split
  · rfl
  · exact hp other

end Pass

/-- A visit as it begins. -/
structure Visit where
  unit : SourceUnit
  stack : List String
  pass : Pass

mutual

/-- The visits that are begun, in their order. -/
def visits (files : Files) : SourceUnit → List String → Pass → List Visit
  | .mk name sources references, stack, p =>
    ⟨.mk name sources references, stack, p⟩ ::
      if !Image.isValidName name || stack.contains name then []
      else visitsAll files references (stack ++ [name]) p

def visitsAll (files : Files) : List Reference → List String → Pass → List Visit
  | [], _, _ => []
  | r :: rest, stack, p =>
    visitsReference files r stack p ++
      match visitReference files r stack p with
      | (.ok (), q) => visitsAll files rest stack q
      | (.error _, _) => []

def visitsReference (files : Files) : Reference → List String → Pass → List Visit
  | .unit u, stack, p =>
    if !Image.isValidName u.name || stack.contains u.name || p.images.contains u.name then []
    else visits files u stack p
  | .binary _, _, _ => []

end

/-- The image was read from a file under its name. -/
def IsRead (files : Files) (path name : String) (stored : StoredImage) : Prop :=
  binaryName path = name ∧ ∃ bytes image, files.read path = .ok bytes ∧
    readBinary name path bytes = .ok image ∧ stored = .ofBytes name bytes

namespace Visit

/-- The visit of a unit with a valid name did not complete. -/
def Abandoned (files : Files) (v : Visit) : Prop :=
  Image.isValidName v.unit.name = true ∧ ∃ e, (visit files v.unit v.stack v.pass).1 = .error e

/-- The visit compiled its unit to this image. -/
def Compiles (files : Files) (v : Visit) (stored : StoredImage) : Prop :=
  ∃ q image bytes,
    visitAll files v.unit.references (v.stack ++ [v.unit.name]) v.pass = (.ok (), q) ∧
      compile v.unit (interfaces q.decoded v.unit.references) = .ok image ∧
        image.encode? = some bytes ∧ stored = .ofBytes v.unit.name bytes

/-- The image is the one of the unit, or one that the unit refers to by its path. -/
def Obtains (files : Files) (v : Visit) (name : String) (stored : StoredImage) : Prop :=
  v.unit.name = name ∧ v.Compiles files stored ∨
    ∃ path, .binary path ∈ v.unit.references ∧ IsRead files path name stored

end Visit

/-- What a walk from `p` to `q` leaves in the store, given the references that it follows and the
visits that it begins. -/
structure Settled (files : Files) (old : Store) (references : List Reference) (vs : List Visit)
    (p q : Pass) : Prop where
  gone : ∀ v ∈ vs, v.Abandoned files → q.store.get? v.unit.name = none
  kept : ∀ name, (∀ v ∈ vs, v.Abandoned files → v.unit.name ≠ name) →
    q.store.get? name = (q.images.get? name).or (NameMap.get? old name)
  origin : ∀ name stored, q.images.get? name = some stored →
    p.images.get? name = some stored ∨ NameMap.get? old name = some stored ∨
      (∃ path, .binary path ∈ references ∧ IsRead files path name stored) ∨
        ∃ v ∈ vs, v.Obtains files name stored

/-- None of the visits was abandoned. -/
def Complete (files : Files) (vs : List Visit) : Prop := ∀ v ∈ vs, ¬ v.Abandoned files

theorem complete_nil {files : Files} : Complete files [] := fun v hv => by cases hv

namespace Settled

variable {files : Files} {old : Store} {references more : List Reference} {vs later : List Visit}
  {p q r : Pass}

theorem refl (hp : p.Covers old) (hvs : Complete files vs) :
    Settled files old references vs p p :=
  ⟨fun v hv habandoned => absurd habandoned (hvs v hv), fun name _ => hp name,
    fun _ _ h => Or.inl h⟩

theorem covers (h : Settled files old references vs p q) (hvs : Complete files vs) :
    q.Covers old := fun name => h.kept name fun v hv habandoned => absurd habandoned (hvs v hv)

theorem addImage {name : String} {stored : StoredImage} {store : Store} (hp : p.Covers old)
    (hvs : Complete files vs) (hstore : ∀ other, NameMap.get? store other =
      if other = name then some stored else p.store.get? other) (image : Image)
    (horigin : NameMap.get? old name = some stored ∨
      (∃ path, .binary path ∈ references ∧ IsRead files path name stored) ∨
        ∃ v ∈ vs, v.Obtains files name stored) :
    Settled files old references vs p ({ p with store }.addImage name stored image) := by
  refine ⟨fun v hv habandoned => absurd habandoned (hvs v hv),
    fun other _ => hp.addImage hstore image other, ?_⟩
  intro other found hfound
  change (p.images.insert name stored).get? other = some found at hfound
  rw [NameMap.get?_insert] at hfound
  split at hfound
  · next heq =>
    obtain rfl := Option.some.inj hfound
    exact Or.inr (heq ▸ horigin)
  · exact Or.inl hfound

theorem mono (h : Settled files old references vs p q) (hsub : references ⊆ more) :
    Settled files old more vs p q := by
  refine ⟨h.gone, h.kept, fun name stored hstored => ?_⟩
  exact (h.origin name stored hstored).imp_right (.imp_right (.imp_left fun ⟨path, hpath, hread⟩ =>
    ⟨path, hsub hpath, hread⟩))

/-- A walk goes on after one that has completed all its visits. -/
theorem trans {all : List Visit} (h : Settled files old references vs p q)
    (h' : Settled files old references later q r) (hvs : vs ⊆ all) (hlater : later ⊆ all)
    (hall : ∀ v ∈ all, v.Abandoned files → v ∈ later) :
    Settled files old references all p r := by
  refine ⟨fun v hv habandoned => h'.gone v (hall v hv habandoned) habandoned,
    fun name hname => h'.kept name fun v hv => hname v (hlater hv), ?_⟩
  intro name stored hstored
  rcases h'.origin name stored hstored with hq | hold | hread | ⟨v, hv, hobtains⟩
  · refine (h.origin name stored hq).imp_right (.imp_right (.imp_right ?_))
    exact fun ⟨v, hv, hobtains⟩ => ⟨v, hvs hv, hobtains⟩
  · exact Or.inr (Or.inl hold)
  · exact Or.inr (Or.inr (Or.inl hread))
  · exact Or.inr (Or.inr (Or.inr ⟨v, hlater hv, hobtains⟩))

theorem append (h : Settled files old references vs p q) (hvs : Complete files vs)
    (h' : Settled files old references later q r) :
    Settled files old references (vs ++ later) p r := by
  refine h.trans h' (List.subset_append_left vs later) (List.subset_append_right vs later) ?_
  intro v hv habandoned
  exact (List.mem_append.1 hv).resolve_left fun hv => hvs v hv habandoned

end Settled

section Steps

variable {files : Files} {old : Store} {p q : Pass} {result : Except MaterializeFault Unit}

theorem load_eq_ok {name path : String} {stored : StoredImage}
    (h : load files name path = .ok stored) : ∃ bytes image, files.read path = .ok bytes ∧
      readBinary name path bytes = .ok image ∧ stored = .ofBytes name bytes := by
  unfold load at h
  split at h
  · cases h
  · next bytes hbytes =>
    cases himage : readBinary name path bytes with
    | error e =>
      rw [himage] at h
      cases h
    | ok image =>
      rw [himage] at h
      exact ⟨bytes, image, hbytes, himage, (Except.ok.inj h).symm⟩

/-- A binary reference is read once, and from its file only if the store does not have it. -/
theorem addBinary_settles {path : String} (hp : p.Covers old)
    (hnew : p.images.get? (binaryName path) = none)
    (h : addBinary files (binaryName path) path p = (result, q)) :
    Settled files old [.binary path] [] p q := by
  unfold addBinary at h
  split at h
  · next e store hstore =>
    obtain rfl := (Prod.mk.inj h).2
    rcases Store.getOrAdd_cases hstore with ⟨_, _, hok, _⟩ | ⟨_, _, _, hok, _⟩ | ⟨_, _, _, rfl⟩
    · cases hok
    · cases hok
    · exact .refl hp complete_nil
  · next stored store hstore =>
    simp only at h
    rcases Store.getOrAdd_cases hstore with
      ⟨_, hfound, hok, rfl⟩ | ⟨_, hmissing, hload, hok, rfl⟩ | ⟨_, _, hok, _⟩
    · obtain rfl := Except.ok.inj hok
      split at h
      · next e he =>
        obtain rfl := (Prod.mk.inj h).2
        exact .refl hp complete_nil
      · next image himage =>
        obtain rfl := (Prod.mk.inj h).2
        have hold : NameMap.get? old (binaryName path) = some stored := by
          rw [← hfound, hp, hnew, Option.none_or]
        refine .addImage hp complete_nil (fun other => ?_) image (Or.inl hold)
        split
        · next heq => rw [heq, hfound]
        · rfl
    · obtain rfl := Except.ok.inj hok
      obtain ⟨bytes, image, hread, himage, rfl⟩ := load_eq_ok hload
      have hbytes : (StoredImage.ofBytes (binaryName path) bytes).bytes = bytes := rfl
      rw [hbytes, himage] at h
      obtain rfl := (Prod.mk.inj h).2
      exact .addImage hp complete_nil (fun other => NameMap.get?_insert p.store _ other _) image
        (Or.inr (Or.inl ⟨path, List.mem_singleton_self _, rfl, bytes, image, hread, himage, rfl⟩))
    · cases hok

/-- The images that a visit from `p` takes out of the store when it fails at `q`. -/
def observed (p q : Pass) (name : String) : List StoredImage :=
  (p.store.get? name).toList ++ (q.images.get? name).toList

theorem emit_eq_error {u : SourceUnit} {e : MaterializeFault} (h : emit u p = (.error e, q)) :
    q = p := by
  unfold emit at h
  split at h
  · exact (Prod.mk.inj h).2.symm
  · split at h
    · exact (Prod.mk.inj h).2.symm
    · cases (Prod.mk.inj h).1

/-- A visit fails with its references, or with its unit, or completes with both. -/
theorem visit_cases {u : SourceUnit} {stack : List String}
    (hvalid : Image.isValidName u.name = true) (hfresh : u.name ∉ stack)
    (h : visit files u stack p = (result, q)) :
    (∃ e r, visitAll files u.references (stack ++ [u.name]) p = (.error e, r) ∧
      result = .error e ∧ q = r.evict u.name (observed p r u.name)) ∨
    ∃ r, visitAll files u.references (stack ++ [u.name]) p = (.ok (), r) ∧
      ((∃ e, emit u r = (.error e, r) ∧ result = .error e ∧
          q = r.evict u.name (observed p r u.name)) ∨
        emit u r = (.ok (), q) ∧ result = .ok ()) := by
  obtain ⟨name, sources, references⟩ := u
  change Image.isValidName name = true at hvalid
  change name ∉ stack at hfresh
  change (∃ e r, visitAll files references (stack ++ [name]) p = (.error e, r) ∧ _) ∨
    ∃ r, visitAll files references (stack ++ [name]) p = (.ok (), r) ∧ _
  rw [visit, if_neg (by simp [hvalid]), if_neg (by simpa using hfresh)] at h
  cases hall : visitAll files references (stack ++ [name]) p with
  | mk walked r =>
    rw [hall] at h
    cases walked with
    | error e =>
      obtain ⟨rfl, rfl⟩ := Prod.mk.inj h
      exact Or.inl ⟨e, r, rfl, rfl, rfl⟩
    | ok _ =>
      refine Or.inr ⟨r, rfl, ?_⟩
      simp only at h
      cases hemit : emit (.mk name sources references) r with
      | mk emitted last =>
        rw [hemit] at h
        cases emitted with
        | error e =>
          obtain rfl := emit_eq_error hemit
          obtain ⟨rfl, rfl⟩ := Prod.mk.inj h
          exact Or.inl ⟨e, rfl, rfl, rfl⟩
        | ok _ =>
          obtain ⟨rfl, rfl⟩ := Prod.mk.inj h
          exact Or.inr ⟨rfl, rfl⟩

theorem visits_eq {u : SourceUnit} {stack : List String}
    (hvalid : Image.isValidName u.name = true) (hfresh : u.name ∉ stack) (p : Pass) :
    visits files u stack p =
      ⟨u, stack, p⟩ :: visitsAll files u.references (stack ++ [u.name]) p := by
  obtain ⟨name, sources, references⟩ := u
  change Image.isValidName name = true at hvalid
  change name ∉ stack at hfresh
  rw [visits, if_neg (by simp [hvalid, hfresh])]
  rfl

/-- A unit is visited as a reference unless its name is invalid, on the stack or done. -/
theorem visitReference_unit_cases {u : SourceUnit} {stack : List String}
    (h : visitReference files (.unit u) stack p = (result, q)) :
    (visitsReference files (.unit u) stack p = [] ∧ q = p ∧
      (result = .error (.invalidName u.name) ∨
        (u.name ∈ stack ∧ result = .error (.cycle (stack ++ [u.name]))) ∨ result = .ok ())) ∨
    Image.isValidName u.name = true ∧ u.name ∉ stack ∧ p.images.contains u.name = false ∧
      visitsReference files (.unit u) stack p = visits files u stack p ∧
        visit files u stack p = (result, q) := by
  rw [visitReference] at h
  rw [visitsReference]
  by_cases hvalid : Image.isValidName u.name = true
  · rw [if_neg (by simp [hvalid])] at h
    by_cases hstack : u.name ∈ stack
    · rw [if_pos (by simpa using hstack)] at h
      obtain ⟨rfl, rfl⟩ := Prod.mk.inj h
      exact Or.inl ⟨if_pos (by simp [hstack]), rfl, Or.inr (Or.inl ⟨hstack, rfl⟩)⟩
    · rw [if_neg (by simpa using hstack)] at h
      by_cases hdone : p.images.contains u.name = true
      · rw [if_pos hdone] at h
        obtain ⟨rfl, rfl⟩ := Prod.mk.inj h
        exact Or.inl ⟨if_pos (by simp [hdone]), rfl, Or.inr (Or.inr rfl)⟩
      · rw [if_neg hdone] at h
        exact Or.inr ⟨hvalid, hstack, Bool.eq_false_iff.2 hdone,
          if_neg (by simp [hvalid, hstack, hdone]), h⟩
  · rw [if_pos (by simp [hvalid])] at h
    obtain ⟨rfl, rfl⟩ := Prod.mk.inj h
    exact Or.inl ⟨if_pos (by simp [hvalid]), rfl, Or.inl rfl⟩

/-- A visit that fails takes out its own name besides what its references have taken out. -/
theorem Settled.evict {v : Visit} {vs : List Visit}
    (h : Settled files old v.unit.references vs v.pass q) (hp : v.pass.Covers old)
    (hnew : v.pass.images.get? v.unit.name = none) (hv : v.Abandoned files) :
    Settled files old [] (v :: vs) v.pass
      (q.evict v.unit.name (observed v.pass q v.unit.name)) := by
  have hself : (q.evict v.unit.name (observed v.pass q v.unit.name)).store.get? v.unit.name =
      none := by
    by_cases hinner : ∃ w ∈ vs, w.Abandoned files ∧ w.unit.name = v.unit.name
    · obtain ⟨w, hw, habandoned, hname⟩ := hinner
      exact Pass.get?_evict_none (hname ▸ h.gone w hw habandoned)
    · have hkept := h.kept v.unit.name fun w hw habandoned hname =>
        hinner ⟨w, hw, habandoned, hname⟩
      refine Pass.get?_evict_self fun stored hstored => ?_
      rw [hkept] at hstored
      have hstale : v.pass.store.get? v.unit.name = NameMap.get? old v.unit.name := by
        rw [hp, hnew, Option.none_or]
      rw [observed, hstale]
      cases himage : q.images.get? v.unit.name with
      | some image =>
        rw [himage, Option.some_or] at hstored
        obtain rfl := Option.some.inj hstored
        exact List.mem_append_right _ (List.mem_singleton_self _)
      | none =>
        rw [himage, Option.none_or] at hstored
        rw [hstored]
        exact List.mem_append_left _ (List.mem_singleton_self _)
  refine ⟨?_, ?_, ?_⟩
  · intro w hw habandoned
    rcases List.mem_cons.1 hw with rfl | hw
    · exact hself
    · exact Pass.get?_evict_none (h.gone w hw habandoned)
  · intro name hname
    rw [Pass.get?_evict_other (Ne.symm (hname v List.mem_cons_self hv)), Pass.evict_images]
    exact h.kept name fun w hw => hname w (List.mem_cons_of_mem v hw)
  · intro name stored hstored
    rcases h.origin name stored hstored with hpass | hold | ⟨path, hpath, hread⟩ | hinner
    · exact Or.inl hpass
    · exact Or.inr (Or.inl hold)
    · exact Or.inr (Or.inr (Or.inr
        ⟨v, List.mem_cons_self, Or.inr ⟨path, hpath, hread⟩⟩))
    · obtain ⟨w, hw, hobtains⟩ := hinner
      exact Or.inr (Or.inr (Or.inr ⟨w, List.mem_cons_of_mem v hw, hobtains⟩))

/-- What a unit's own references gave is given by its visit. -/
theorem Settled.inside {v : Visit} {vs : List Visit}
    (h : Settled files old v.unit.references vs p q) (hvs : Complete files (v :: vs)) :
    Settled files old [] (v :: vs) p q := by
  refine ⟨fun w hw habandoned => absurd habandoned (hvs w hw), fun name _ => ?_, ?_⟩
  · exact h.kept name fun w hw habandoned =>
      absurd habandoned (hvs w (List.mem_cons_of_mem v hw))
  · intro name stored hstored
    refine (h.origin name stored hstored).imp_right (.imp_right ?_)
    rintro (⟨path, hpath, hread⟩ | ⟨w, hw, hobtains⟩)
    · exact Or.inr ⟨v, List.mem_cons_self, Or.inr ⟨path, hpath, hread⟩⟩
    · exact Or.inr ⟨w, List.mem_cons_of_mem v hw, hobtains⟩

theorem emit_eq_ok {u : SourceUnit} (h : emit u p = (.ok (), q)) : ∃ image bytes,
    compile u (interfaces p.decoded u.references) = .ok image ∧ image.encode? = some bytes ∧
      q = { p with store := p.store.add (.ofBytes u.name bytes) }.addImage u.name
        (.ofBytes u.name bytes) image := by
  unfold emit at h
  split at h
  · cases h
  · next image himage =>
    split at h
    · cases h
    · next bytes hbytes => exact ⟨image, bytes, himage, hbytes, (Prod.mk.inj h).2.symm⟩

/-- A visit that completes puts the image of its unit into the store. -/
theorem Settled.emit {v : Visit} {vs : List Visit} {r : Pass}
    (h : Settled files old v.unit.references vs v.pass q) (hvs : Complete files (v :: vs))
    (hq : q.Covers old)
    (hwalk : visitAll files v.unit.references (v.stack ++ [v.unit.name]) v.pass = (.ok (), q))
    (hemit : emit v.unit q = (.ok (), r)) : Settled files old [] (v :: vs) v.pass r := by
  obtain ⟨image, bytes, hcompile, hbytes, rfl⟩ := emit_eq_ok hemit
  have hlast : Complete files [v] := by
    intro w hw
    exact hvs w (List.mem_cons.2 (Or.inl (by simpa using hw)))
  have hobtained : v.Obtains files v.unit.name (.ofBytes v.unit.name bytes) :=
    Or.inl ⟨rfl, q, image, bytes, hwalk, hcompile, hbytes, rfl⟩
  have hstore := fun other =>
    NameMap.get?_insert q.store v.unit.name other (.ofBytes v.unit.name bytes)
  refine (h.inside hvs).trans (.addImage hq hlast hstore image (Or.inr (Or.inr ?_)))
    (List.Subset.refl _) ?_ ?_
  · exact ⟨v, List.mem_cons_self, hobtained⟩
  · exact List.cons_subset_cons v (List.nil_subset vs)
  · exact fun w hw habandoned => absurd habandoned (hvs w hw)

end Steps

section Walks

variable {files : Files} {old : Store} {stack : List String} {p q : Pass}
  {result : Except MaterializeFault Unit}

mutual

/-- A visit takes the names out of the store whose visits were begun and not completed, if there
are any, and otherwise only adds images. -/
theorem visit_settles : ∀ (u : SourceUnit) {stack : List String} {p q : Pass}
    {result : Except MaterializeFault Unit}, p.Covers old → Image.isValidName u.name = true →
      u.name ∉ stack → p.images.get? u.name = none → visit files u stack p = (result, q) →
        Settled files old [] (visits files u stack p) p q ∧
          (result = .ok () → Complete files (visits files u stack p))
  | .mk name sources references, stack, p, q, result, hp, hvalid, hfresh, hnew, h => by
    let v : Visit := ⟨.mk name sources references, stack, p⟩
    have hresult : (visit files v.unit v.stack v.pass).1 = result := by rw [h]
    rw [visits_eq hvalid hfresh]
    rcases visit_cases hvalid hfresh h with ⟨e, r, hall, rfl, rfl⟩ | ⟨r, hall, hlast⟩
    · obtain ⟨hsettled, _⟩ := visitAll_settles references hp hall
      exact ⟨.evict (v := v) hsettled hp hnew ⟨hvalid, e, hresult⟩, fun hok => by cases hok⟩
    · obtain ⟨hsettled, hcomplete⟩ := visitAll_settles references hp hall
      rcases hlast with ⟨e, hemit, rfl, rfl⟩ | ⟨hemit, rfl⟩
      · exact ⟨.evict (v := v) hsettled hp hnew ⟨hvalid, e, hresult⟩, fun hok => by cases hok⟩
      · have hvs : Complete files (v :: visitsAll files references (stack ++ [name]) p) := by
          intro w hw
          rcases List.mem_cons.1 hw with rfl | hw
          · rintro ⟨_, e, he⟩
            cases hresult.symm.trans he
          · exact hcomplete rfl w hw
        exact ⟨.emit (v := v) hsettled hvs (hsettled.covers (hcomplete rfl)) hall hemit,
          fun _ => hvs⟩

theorem visitAll_settles : ∀ (references : List Reference) {stack : List String} {p q : Pass}
    {result : Except MaterializeFault Unit}, p.Covers old →
      visitAll files references stack p = (result, q) →
        Settled files old references (visitsAll files references stack p) p q ∧
          (result = .ok () → Complete files (visitsAll files references stack p))
  | [], stack, p, q, result, hp, h => by
    obtain ⟨-, rfl⟩ := Prod.mk.inj h
    exact ⟨.refl hp complete_nil, fun _ => complete_nil⟩
  | r :: rest, stack, p, q, result, hp, h => by
    rw [visitAll] at h
    rw [visitsAll]
    cases hfirst : visitReference files r stack p with
    | mk first between =>
      obtain ⟨hsettled, hcomplete⟩ := visitReference_settles r hp hfirst
      have hsettled := hsettled.mono (List.cons_subset_cons r (List.nil_subset rest))
      rw [hfirst] at h
      cases first with
      | error e =>
        obtain ⟨rfl, rfl⟩ := Prod.mk.inj h
        simp only [List.append_nil]
        exact ⟨hsettled, fun hok => by cases hok⟩
      | ok _ =>
        have hvs := hcomplete rfl
        obtain ⟨hlater, hcompleteLater⟩ := visitAll_settles rest (hsettled.covers hvs) h
        refine ⟨hsettled.append hvs (hlater.mono (List.subset_cons_self r rest)), fun hok => ?_⟩
        intro v hv
        rcases List.mem_append.1 hv with hv | hv
        · exact hvs v hv
        · exact hcompleteLater hok v hv

theorem visitReference_settles : ∀ (r : Reference) {stack : List String} {p q : Pass}
    {result : Except MaterializeFault Unit}, p.Covers old →
      visitReference files r stack p = (result, q) →
        Settled files old [r] (visitsReference files r stack p) p q ∧
          (result = .ok () → Complete files (visitsReference files r stack p))
  | .unit u, stack, p, q, result, hp, h => by
    obtain ⟨hnone, rfl, -⟩ | ⟨hvalid, hfresh, hnew, hbegun, hvisit⟩ := visitReference_unit_cases h
    · rw [hnone]
      exact ⟨.refl hp complete_nil, fun _ => complete_nil⟩
    · rw [hbegun]
      obtain ⟨hsettled, hcomplete⟩ :=
        visit_settles u hp hvalid hfresh (NameMap.contains_eq_false.1 hnew) hvisit
      exact ⟨hsettled.mono (List.nil_subset _), hcomplete⟩
  | .binary path, stack, p, q, result, hp, h => by
    rw [visitReference] at h
    rw [visitsReference]
    refine ⟨?_, fun _ => complete_nil⟩
    split at h
    · obtain ⟨-, rfl⟩ := Prod.mk.inj h
      exact .refl hp complete_nil
    split at h
    · obtain ⟨-, rfl⟩ := Prod.mk.inj h
      exact .refl hp complete_nil
    · next hdone =>
      exact addBinary_settles hp (NameMap.contains_eq_false.1 (Bool.eq_false_iff.2 hdone)) h

end

end Walks

section Roots

variable {files : Files} {store : Store} {u : SourceUnit} {q : Pass}
  {result : Except MaterializeFault Unit}

/-- A root whose name is no name of an image begins nothing. -/
theorem visit_invalid (files : Files) (h : Image.isValidName u.name = false) (p : Pass) :
    visit files u [] p = (.error (.invalidName u.name), p) ∧
      visits files u [] p = [⟨u, [], p⟩] := by
  obtain ⟨name, sources, references⟩ := u
  change Image.isValidName name = false at h
  exact ⟨by rw [visit, if_pos (by simp [h])]; rfl, by rw [visits, if_pos (by simp [h])]⟩

theorem root_settles (h : visit files u [] (.start store) = (result, q)) :
    Settled files store [] (visits files u [] (.start store)) (.start store) q ∧
      (result = .ok () → Complete files (visits files u [] (.start store))) := by
  by_cases hvalid : Image.isValidName u.name = true
  · exact visit_settles u (Pass.covers_start store) hvalid List.not_mem_nil rfl h
  · obtain ⟨hvisit, hvisits⟩ :=
      visit_invalid files (Bool.eq_false_iff.2 hvalid) (.start store)
    obtain ⟨rfl, rfl⟩ := Prod.mk.inj (hvisit.symm.trans h)
    have hnone : Complete files (visits files u [] (.start store)) := by
      rw [hvisits]
      rintro v hv ⟨hname, -⟩
      rw [List.mem_singleton.1 hv] at hname
      exact hvalid hname
    exact ⟨.refl (Pass.covers_start store) hnone, fun _ => hnone⟩

/-- Whatever a walk leaves under a name is old, or it was obtained by a visit. -/
theorem Settled.kept_or_obtained {vs : List Visit} {name : String} {stored : StoredImage}
    (h : Settled files store [] vs (.start store) q)
    (hstored : (q.images.get? name).or (NameMap.get? store name) = some stored) :
    NameMap.get? store name = some stored ∨ ∃ v ∈ vs, v.Obtains files name stored := by
  rcases Option.or_eq_some_iff.1 hstored with himage | ⟨-, hold⟩
  · rcases h.origin name stored himage with hstart | hold | ⟨_, hpath, _⟩ | hobtained
    · cases hstart
    · exact Or.inl hold
    · cases hpath
    · exact Or.inr hobtained
  · exact Or.inl hold

/-- A store that has under a name what a walk leaves there has what was there, or what a visit
obtained. -/
theorem Settled.kept_beside {vs : List Visit} {name : String} {after : Store}
    (h : Settled files store [] vs (.start store) q)
    (hafter : NameMap.get? after name = q.store.get? name)
    (hkept : q.store.get? name = (q.images.get? name).or (NameMap.get? store name)) :
    NameMap.get? after name = NameMap.get? store name ∨
      ∃ stored, NameMap.get? after name = some stored ∧
        ∃ v ∈ vs, v.Obtains files name stored := by
  rw [hafter]
  cases hstored : q.store.get? name with
  | none =>
    rw [hkept] at hstored
    exact Or.inl (Option.or_eq_none_iff.1 hstored).2.symm
  | some stored =>
    rw [hkept] at hstored
    refine (h.kept_or_obtained hstored).imp Eq.symm fun hobtained => ?_
    exact ⟨stored, rfl, hobtained⟩

/-- Any fault but that of its own name abandons the visit of the root. -/
theorem root_gone {e : MaterializeFault} (h : visit files u [] (.start store) = (.error e, q)) :
    ∀ image missing, e = .incomplete image missing → q.store.get? u.name = none := by
  rintro image missing rfl
  by_cases hvalid : Image.isValidName u.name = true
  · refine (root_settles h).1.gone ⟨u, [], .start store⟩ ?_ ⟨hvalid, _, by rw [h]⟩
    rw [visits_eq hvalid List.not_mem_nil]
    exact List.mem_cons_self
  · obtain ⟨hinvalid, -⟩ := visit_invalid files (Bool.eq_false_iff.2 hvalid) (.start store)
    cases Except.error.inj (Prod.mk.inj (h.symm.trans hinvalid)).1

theorem images_root (h : visit files u [] (.start store) = (.ok (), q)) :
    ∃ stored, q.images.get? u.name = some stored := by
  obtain ⟨_, _, r, _, hemit⟩ := visit_eq_ok h
  obtain ⟨image, bytes, _, _, rfl⟩ := emit_eq_ok hemit
  exact ⟨_, (NameMap.get?_insert _ _ _ _).trans (if_pos rfl)⟩

/-- The image of the root is not kept if it is taken back after its visit. -/
theorem root_evicted (h : visit files u [] (.start store) = (.ok (), q)) :
    NameMap.get? (q.evict u.name (q.images.get? u.name).toList).store u.name = none := by
  obtain ⟨hsettled, hcomplete⟩ := root_settles h
  obtain ⟨stored, hstored⟩ := images_root h
  refine Pass.get?_evict_self fun found hfound => ?_
  rw [hsettled.covers (hcomplete rfl), hstored, Option.some_or] at hfound
  rw [hstored, ← Option.some.inj hfound]
  exact List.mem_singleton_self _

/-- The three ways in which a pass ends. -/
theorem materialize_cases {order : Order} {outcome : Except MaterializeFault Closure}
    {after : Store}
    (h : materialize order files store u = (outcome, after)) : ∃ q,
    (∃ e, visit files u [] (.start store) = (.error e, q) ∧
      outcome = .error e ∧ after = q.store) ∨
    visit files u [] (.start store) = (.ok (), q) ∧
      ((∃ image missing, outcome = .error (.incomplete image missing) ∧
          after = (q.evict u.name (q.images.get? u.name).toList).store) ∨
        outcome = .ok ⟨u.name, q.images⟩ ∧ after = q.store) := by
  unfold materialize at h
  split at h
  · next e q hvisit =>
    obtain ⟨rfl, rfl⟩ := Prod.mk.inj h
    exact ⟨q, Or.inl ⟨e, hvisit, rfl, rfl⟩⟩
  · next q hvisit =>
    refine ⟨q, Or.inr ⟨hvisit, ?_⟩⟩
    split at h
    · next image missing _ =>
      obtain ⟨rfl, rfl⟩ := Prod.mk.inj h
      exact Or.inl ⟨image, missing, rfl, rfl⟩
    · obtain ⟨rfl, rfl⟩ := Prod.mk.inj h
      exact Or.inr ⟨rfl, rfl⟩

end Roots

end Materialize

open Materialize (visits Pass) in
/-- A pass that succeeds puts its closure over the store. One that fails leaves nothing of the units
that it did not complete, and nothing new but what a visit obtained. -/
theorem materialize_effect (order : Materialize.Order) (files : Files) (store : Store)
    (u : SourceUnit) :
    (∀ closure after, materialize order files store u = (.ok closure, after) → ∀ name,
      NameMap.get? after name = (closure.get? name).or (NameMap.get? store name)) ∧
    ∀ e after, materialize order files store u = (.error e, after) →
      (∀ v ∈ visits files u [] (.start store), v.Abandoned files →
        NameMap.get? after v.unit.name = none) ∧
      (∀ image missing, e = .incomplete image missing → NameMap.get? after u.name = none) ∧
      ∀ name, (∀ v ∈ visits files u [] (.start store), v.Abandoned files → v.unit.name ≠ name) →
        (∀ image missing, e = .incomplete image missing → u.name ≠ name) →
          NameMap.get? after name = NameMap.get? store name ∨
            ∃ stored, NameMap.get? after name = some stored ∧
              ∃ v ∈ visits files u [] (.start store), v.Obtains files name stored := by
  constructor
  · intro closure after h name
    obtain ⟨q, ⟨e, -, herror, -⟩ | ⟨hvisit, ⟨_, _, herror, -⟩ | ⟨hclosure, rfl⟩⟩⟩ :=
      Materialize.materialize_cases h
    · cases herror
    · cases herror
    · obtain rfl := Except.ok.inj hclosure
      obtain ⟨hsettled, hcomplete⟩ := Materialize.root_settles hvisit
      exact hsettled.covers (hcomplete rfl) name
  · intro e after h
    obtain ⟨q, ⟨e, hvisit, herror, rfl⟩ | ⟨hvisit, ⟨image, missing, herror, rfl⟩ | ⟨hok, -⟩⟩⟩ :=
      Materialize.materialize_cases h
    · obtain rfl := Except.error.inj herror
      obtain ⟨hsettled, -⟩ := Materialize.root_settles hvisit
      refine ⟨hsettled.gone, Materialize.root_gone hvisit, ?_⟩
      intro name hname _
      exact hsettled.kept_beside rfl (hsettled.kept name hname)
    · obtain rfl := Except.error.inj herror
      obtain ⟨hsettled, hcomplete⟩ := Materialize.root_settles hvisit
      refine ⟨fun v hv habandoned => absurd habandoned (hcomplete rfl v hv),
        fun _ _ _ => Materialize.root_evicted hvisit, ?_⟩
      intro name _ hroot
      have hother : name ≠ u.name := Ne.symm (hroot image missing rfl)
      exact hsettled.kept_beside (Pass.get?_evict_other hother)
        (hsettled.covers (hcomplete rfl) name)
    · cases hok

def inkUnit : SourceUnit :=
  .mk "Ink" [⟨"i.tdl", "class Ink \x7b fn dry() \x7b return 2; \x7d \x7d"⟩] []

/-- A unit that refers to a good one and then to one that does not compile. -/
def smearedUnit : SourceUnit :=
  .mk "Page" [⟨"p.tdl", "class Page \x7b \x7d"⟩]
    [.unit inkUnit, .unit (.mk "Pen" [⟨"n.tdl", "class Pen \x7b"⟩] [])]

def staleStore : Store :=
  ((Store.empty.add (.ofBytes "Page" [1])).add (.ofBytes "Pen" [2])).add (.ofBytes "Paper" [3])

theorem materialize_effect_smeared :
    (∃ closure after, materialize .sorted .fresh staleStore inkUnit = (.ok closure, after) ∧
      ∀ name, NameMap.get? after name = (closure.get? name).or (NameMap.get? staleStore name)) ∧
    ∃ e after, materialize .sorted .fresh staleStore smearedUnit = (.error e, after) ∧
      NameMap.get? after "Page" = none ∧ NameMap.get? after "Pen" = none ∧
        (NameMap.get? after "Ink" = NameMap.get? staleStore "Ink" ∨
          ∃ stored, NameMap.get? after "Ink" = some stored ∧
            ∃ v ∈ Materialize.visits .fresh smearedUnit [] (.start staleStore),
              v.Obtains .fresh "Ink" stored) := by
  refine ⟨?_, ?_⟩
  · have hok : (materialize .sorted .fresh staleStore inkUnit).1.isOk = true := by decide +kernel
    cases hrun : materialize .sorted .fresh staleStore inkUnit with
    | mk result after =>
      rw [hrun] at hok
      cases result with
      | error e => cases hok
      | ok closure =>
        exact ⟨closure, after, rfl, (materialize_effect _ _ _ _).1 closure after hrun⟩
  · have hfails : (materialize .sorted .fresh staleStore smearedUnit).1.isOk = false := by
      decide +kernel
    have habandoned : ∀ name ∈ ["Page", "Pen"],
        ∃ v ∈ Materialize.visits .fresh smearedUnit [] (.start staleStore),
          v.unit.name = name ∧ Image.isValidName v.unit.name = true ∧
            (Materialize.visit .fresh v.unit v.stack v.pass).1.isOk = false := by
      decide +kernel
    have hink : ∀ v ∈ Materialize.visits .fresh smearedUnit [] (.start staleStore),
        v.unit.name = "Ink" → (Materialize.visit .fresh v.unit v.stack v.pass).1.isOk = true := by
      decide +kernel
    cases hrun : materialize .sorted .fresh staleStore smearedUnit with
    | mk result after =>
      rw [hrun] at hfails
      cases result with
      | ok closure => cases hfails
      | error e =>
        obtain ⟨hgone, -, hkept⟩ :=
          (materialize_effect .sorted .fresh staleStore smearedUnit).2 e after hrun
        have hmissing : ∀ name ∈ ["Page", "Pen"], NameMap.get? after name = none := by
          intro name hname
          obtain ⟨v, hv, rfl, hvalid, hresult⟩ := habandoned name hname
          refine hgone v hv ⟨hvalid, ?_⟩
          cases hvisit : (Materialize.visit .fresh v.unit v.stack v.pass).1 with
          | error e => exact ⟨e, rfl⟩
          | ok _ =>
            rw [hvisit] at hresult
            cases hresult
        refine ⟨e, after, rfl, hmissing _ (by decide), hmissing _ (by decide), hkept "Ink" ?_ ?_⟩
        · rintro v hv ⟨-, e, he⟩ hname
          have hresult := hink v hv hname
          rw [he] at hresult
          cases hresult
        · intro _ _ _
          decide

end TestBench
