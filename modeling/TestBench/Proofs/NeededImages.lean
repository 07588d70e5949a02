import TestBench.Programs.Directories
import TestBench.Proofs.ReadBackImages
import TestBench.Verdict.Settings

/-!
What a closure holds. A depth-first walk meets every reference of the units that
it enters, and it enters a unit only where its name is met for the first time.
The names that are met in this way are the names of the images, since a pass
has an image of a name exactly if it has met the name and is not inside the unit
of that name any more. Every image is there with its digest, decodes under its
own name and refers to images that are there too, so any of them can be loaded.
-/
namespace TestBench

namespace SourceUnit

mutual

/-- The references that a walk has met after a unit, given those that it had met before it. -/
def meet : SourceUnit → List Reference → List Reference
  | .mk name sources references, met =>
    meetAll references (met ++ [.unit (.mk name sources references)])

def meetAll : List Reference → List Reference → List Reference
  | [], met => met
  | r :: rest, met => meetAll rest (meetReference r met)

/-- A unit is entered if no reference of its name has been met before. -/
def meetReference : Reference → List Reference → List Reference
  | .unit u, met => if met.any (·.name == u.name) then met ++ [.unit u] else u.meet met
  | .binary path, met => met ++ [.binary path]

end

/-- All references in the order in which a depth-first walk meets them, the unit itself first. -/
def walk (u : SourceUnit) : List Reference := u.meet []

/-- The names that a unit needs: its own, and with the name of a unit, as the walk meets it first,
those of its references. -/
inductive Needs (u : SourceUnit) : String → Prop
  | self : u.Needs u.name
  | reference {v : SourceUnit} {r : Reference} (hname : u.Needs v.name)
      (hfirst : u.walk.find? (·.name == v.name) = some (.unit v)) (hr : r ∈ v.references) :
      u.Needs r.name

end SourceUnit

section Walks

variable {met found later : List Reference}

/-- The first reference of the name of the unit is to the unit. -/
def Entered (found : List Reference) (v : SourceUnit) : Prop :=
  found.find? (·.name == v.name) = some (.unit v)

theorem Entered.extend {v : SourceUnit} (h : Entered met v) (hextends : met <+: found) :
    Entered found v := by
  obtain ⟨more, rfl⟩ := hextends
  rw [Entered, List.find?_append, h, Option.some_or]

theorem find?_eq_none_of_fresh {name : String} (h : ∀ r ∈ met, r.name ≠ name) :
    met.find? (·.name == name) = none := by
  rw [List.find?_eq_none]
  intro r hr
  simpa using h r hr

theorem not_entered_of_fresh {v : SourceUnit} (h : ∀ r ∈ met, r.name ≠ v.name) :
    ¬ Entered met v := by
  intro hentered
  rw [Entered, find?_eq_none_of_fresh h] at hentered
  cases hentered

/-- The first reference of a name that was met stays the first. -/
theorem Entered.of_extend {v : SourceUnit} (h : Entered found v) (hextends : met <+: found)
    (hmet : ¬ ∀ r ∈ met, r.name ≠ v.name) : Entered met v := by
  have hsome : (met.find? (·.name == v.name)).isSome = true := by
    rw [List.find?_isSome]
    push Not at hmet
    obtain ⟨s, hs, hname⟩ := hmet
    exact ⟨s, hs, by simpa using hname⟩
  obtain ⟨first, hfirst⟩ := Option.isSome_iff_exists.1 hsome
  obtain ⟨more, rfl⟩ := hextends
  rw [Entered, List.find?_append, hfirst, Option.some_or] at h
  rw [Entered, hfirst, h]

/-- A unit that a new reference enters is the one that it refers to. -/
theorem Entered.of_append_singleton {v : SourceUnit} {r : Reference}
    (h : Entered (met ++ [r]) v) (hfresh : ∀ s ∈ met, s.name ≠ v.name) : r = .unit v := by
  rw [Entered, List.find?_append, find?_eq_none_of_fresh hfresh, Option.none_or] at h
  exact (List.mem_singleton.1 (List.mem_of_find?_eq_some h)).symm

theorem entered_append_singleton {u : SourceUnit} (hnew : ∀ s ∈ met, s.name ≠ u.name) :
    Entered (met ++ [.unit u]) u := by
  rw [Entered, List.find?_append, find?_eq_none_of_fresh hnew, Option.none_or]
  exact List.find?_cons_of_pos (beq_self_eq_true u.name)

/-- Only one unit of a name is entered. -/
theorem Entered.unique {v w : SourceUnit} (h : Entered found v) (hw : Entered found w)
    (hname : v.name = w.name) : v = w := by
  have hsame : some (Reference.unit v) = some (.unit w) := by
    rw [← h, ← hw, hname]
  exact Reference.unit.inj (Option.some.inj hsame)

/-- What a walk that follows the references `roots` has met after those in `met`. -/
structure Explores (met found roots : List Reference) : Prop where
  extends_met : met <+: found
  roots_met : roots ⊆ found
  entered : ∀ v, Entered found v → (∀ r ∈ met, r.name ≠ v.name) → v.references ⊆ found
  inherits : ∀ good : String → Prop, (∀ r ∈ roots, good r.name) →
    (∀ v, Entered found v → good v.name → ∀ r ∈ v.references, good r.name) →
      ∀ r ∈ found, r ∈ met ∨ good r.name

namespace Explores

theorem nil (met : List Reference) : Explores met met [] := by
  refine ⟨List.prefix_refl met, List.nil_subset met, ?_, fun _ _ _ r hr => Or.inl hr⟩
  exact fun v hv hfresh => absurd hv (not_entered_of_fresh hfresh)

/-- A reference that is met and not followed. -/
theorem meets {r : Reference} (h : ∀ v, r = .unit v → ∃ s ∈ met, s.name = v.name) :
    Explores met (met ++ [r]) [r] := by
  refine ⟨List.prefix_append met [r], List.subset_append_right met [r], ?_, ?_⟩
  · intro v hv hfresh
    obtain ⟨s, hs, hname⟩ := h v (hv.of_append_singleton hfresh)
    exact absurd hname (hfresh s hs)
  · intro good hroots _ s hs
    exact (List.mem_append.1 hs).imp_right (hroots s)

theorem cons {r : Reference} {rest : List Reference} (h : Explores met found [r])
    (h' : Explores found later rest) : Explores met later (r :: rest) := by
  have hfound : found ⊆ later := h'.extends_met.subset
  refine ⟨h.extends_met.trans h'.extends_met, ?_, ?_, ?_⟩
  · exact List.cons_subset.2 ⟨hfound (h.roots_met (List.mem_singleton_self r)), h'.roots_met⟩
  · intro v hv hfresh
    by_cases hnew : ∀ s ∈ found, s.name ≠ v.name
    · exact h'.entered v hv hnew
    · have hfirst := hv.of_extend h'.extends_met hnew
      exact fun r hr => hfound (h.entered v hfirst hfresh hr)
  · intro good hroots hinside s hs
    obtain ⟨hr, hrest⟩ := List.forall_mem_cons.1 hroots
    rcases h'.inherits good hrest hinside s hs with hs | hgood
    · refine h.inherits good (by simpa using hr) (fun v hv => ?_) s hs
      exact hinside v (hv.extend h'.extends_met)
    · exact Or.inr hgood

/-- A unit that is entered stands before all that is met inside it. -/
theorem unit {u : SourceUnit} (hnew : ∀ s ∈ met, s.name ≠ u.name)
    (h : Explores (met ++ [.unit u]) found u.references) : Explores met found [.unit u] := by
  have hfirst : Entered found u := (entered_append_singleton hnew).extend h.extends_met
  refine ⟨(List.prefix_append met _).trans h.extends_met, ?_, ?_, ?_⟩
  · intro s hs
    obtain rfl := List.mem_singleton.1 hs
    exact h.extends_met.subset (List.mem_append_right met (List.mem_singleton_self _))
  · intro v hv hfresh
    by_cases hname : u.name = v.name
    · obtain rfl := hfirst.unique hv hname
      exact h.roots_met
    · refine h.entered v hv fun s hs => ?_
      rcases List.mem_append.1 hs with hs | hs
      · exact hfresh s hs
      · rw [List.mem_singleton.1 hs]
        exact hname
  · intro good hroots hinside s hs
    have hself : good u.name := hroots (.unit u) (List.mem_singleton_self _)
    rcases h.inherits good (hinside u hfirst hself) hinside s hs with hs | hgood
    · refine (List.mem_append.1 hs).imp_right fun hs => ?_
      rw [List.mem_singleton.1 hs]
      exact hself
    · exact Or.inr hgood

end Explores

open SourceUnit (meetAll meetReference)

theorem any_name_eq_false {name : String} :
    met.any (·.name == name) = false ↔ ∀ r ∈ met, r.name ≠ name := by
  simp [List.any_eq_false]

mutual

theorem meet_explores : ∀ (u : SourceUnit) {met : List Reference}, (∀ r ∈ met, r.name ≠ u.name) →
    Explores met (u.meet met) [.unit u]
  | .mk name sources references, met, hnew => by
    rw [SourceUnit.meet]
    exact .unit hnew (meetAll_explores references _)

theorem meetAll_explores : ∀ (references met : List Reference),
    Explores met (meetAll references met) references
  | [], met => .nil met
  | r :: rest, met => by
    rw [meetAll]
    exact (meetReference_explores r met).cons (meetAll_explores rest _)

theorem meetReference_explores : ∀ (r : Reference) (met : List Reference),
    Explores met (meetReference r met) [r]
  | .unit u, met => by
    rw [meetReference]
    split
    · next hmet =>
      refine .meets fun v hv => ?_
      obtain rfl := Reference.unit.inj hv
      obtain ⟨s, hs, hname⟩ := List.any_eq_true.1 hmet
      exact ⟨s, hs, by simpa using hname⟩
    · next hmet => exact meet_explores u (any_name_eq_false.1 (Bool.eq_false_iff.2 hmet))
  | .binary path, met => .meets fun v hv => by cases hv

end

/-- A unit needs exactly the names that the walk from it meets. -/
theorem SourceUnit.needs_iff {u : SourceUnit} {name : String} :
    u.Needs name ↔ ∃ r ∈ u.walk, r.name = name := by
  have hwalk : Explores [] u.walk [.unit u] := meet_explores u fun r hr => by cases hr
  constructor
  · intro h
    induction h with
    | self => exact ⟨.unit u, hwalk.roots_met (List.mem_singleton_self _), rfl⟩
    | @reference v r _ hfirst hr _ =>
      exact ⟨r, hwalk.entered v hfirst (fun s hs => by cases hs) hr, rfl⟩
  · rintro ⟨r, hr, rfl⟩
    have hself : ∀ s ∈ [Reference.unit u], u.Needs s.name := by
      intro s hs
      rw [List.mem_singleton.1 hs]
      exact .self
    have hinside : ∀ v, Entered u.walk v → u.Needs v.name → ∀ s ∈ v.references, u.Needs s.name :=
      fun v hv hname s hs => .reference hname hv hs
    refine (hwalk.inherits u.Needs hself hinside r hr).resolve_left fun hnil => ?_
    cases hnil

end Walks

namespace NameMap

variable {α : Type}

theorem contains_iff_mem_keys {m : NameMap α} {key : String} :
    m.contains key = true ↔ key ∈ m.keys := by
  rw [mem_keys, contains, Option.isSome_iff_exists]

theorem contains_insert {m : NameMap α} {key other : String} {value : α} :
    (m.insert key value).contains other = true ↔ m.contains other = true ∨ other = key := by
  rw [contains, get?_insert]
  by_cases h : other = key
  · simp [h]
  · simp [h, contains]

end NameMap

namespace Materialize

/-- A pass that is inside the units of the stack has images of all other names that the walk has
met, and has decoded them. -/
structure Tracks (stack : List String) (met : List Reference) (p : Pass) : Prop where
  names : ∀ name, (∃ r ∈ met, r.name = name) ↔ p.images.contains name = true ∨ name ∈ stack
  decoded : ∀ name, p.images.contains name = true → p.decoded.contains name = true

namespace Tracks

variable {stack : List String} {met : List Reference} {p : Pass}

theorem start (store : Store) : Tracks [] [] (.start store) := by
  refine ⟨?_, ?_⟩
  · intro name
    simp [Pass.start, NameMap.contains, NameMap.get?, NameMap.empty, NameMap.find?]
  · intro name h
    cases h

theorem fresh {name : String} (h : Tracks stack met p) (hstack : name ∉ stack)
    (hnew : p.images.contains name = false) : ∀ r ∈ met, r.name ≠ name := by
  intro r hr hname
  rcases (h.names name).1 ⟨r, hr, hname⟩ with himage | hinside
  · rw [hnew] at himage
    cases himage
  · exact hstack hinside

/-- Meeting a name again changes nothing. -/
theorem again {r : Reference} (h : Tracks stack met p) (hr : p.images.contains r.name = true) :
    Tracks stack (met ++ [r]) p := by
  refine ⟨?_, h.decoded⟩
  intro name
  rw [← h.names]
  constructor
  · rintro ⟨s, hs, rfl⟩
    rcases List.mem_append.1 hs with hs | hs
    · exact ⟨s, hs, rfl⟩
    · rw [List.mem_singleton.1 hs]
      exact (h.names _).2 (Or.inl hr)
  · rintro ⟨s, hs, hname⟩
    exact ⟨s, List.mem_append_left _ hs, hname⟩

theorem contains_addImage {name : String} {stored : StoredImage} {image : Image} {other : String} :
    (p.addImage name stored image).images.contains other = true ↔
      p.images.contains other = true ∨ other = name :=
  NameMap.contains_insert

theorem decoded_addImage (h : Tracks stack met p) (name : String) (stored : StoredImage)
    (image : Image) : ∀ other, (p.addImage name stored image).images.contains other = true →
      (p.addImage name stored image).decoded.contains other = true := by
  intro other hother
  change (p.decoded.insert name image).contains other = true
  rw [contains_addImage] at hother
  rw [NameMap.contains_insert]
  exact hother.imp_left (h.decoded other)

/-- A binary reference is met and read. -/
theorem read {r : Reference} (h : Tracks stack met p) (store : Store) (stored : StoredImage)
    (image : Image) :
    Tracks stack (met ++ [r]) ({ p with store }.addImage r.name stored image) := by
  refine ⟨?_, decoded_addImage (p := { p with store }) ⟨h.names, h.decoded⟩ r.name stored image⟩
  intro name
  have hnames := h.names name
  rw [contains_addImage]
  simp only [List.mem_append, List.mem_singleton, or_and_right, exists_or, exists_eq_left]
  have hself : r.name = name ↔ name = r.name := eq_comm
  rw [hnames, hself]
  tauto

/-- A unit is met and entered. -/
theorem enter {u : SourceUnit} (h : Tracks stack met p) :
    Tracks (stack ++ [u.name]) (met ++ [.unit u]) p := by
  refine ⟨?_, h.decoded⟩
  intro name
  have hnames := h.names name
  have hself : (Reference.unit u).name = name ↔ name = u.name := eq_comm
  simp only [List.mem_append, List.mem_singleton, or_and_right, exists_or, exists_eq_left]
  rw [hnames, hself]
  tauto

/-- A unit is compiled and left. -/
theorem leave {name : String} (h : Tracks (stack ++ [name]) met p) (store : Store)
    (stored : StoredImage) (image : Image) :
    Tracks stack met ({ p with store }.addImage name stored image) := by
  refine ⟨?_, decoded_addImage (p := { p with store }) ⟨h.names, h.decoded⟩ name stored image⟩
  intro other
  rw [contains_addImage, h.names, List.mem_append, List.mem_singleton]
  tauto

end Tracks

theorem addBinary_eq_ok {files : Files} {name path : String} {p q : Pass}
    (h : addBinary files name path p = (.ok (), q)) :
    ∃ store stored image, q = { p with store }.addImage name stored image := by
  unfold addBinary at h
  split at h
  · cases h
  · next stored store _ =>
    simp only at h
    split at h
    · cases h
    · next image _ => exact ⟨store, stored, image, (Prod.mk.inj h).2.symm⟩

mutual

theorem visit_tracks {files : Files} : ∀ (u : SourceUnit) {stack : List String}
    {met : List Reference} {p q : Pass}, Tracks stack met p →
      visit files u stack p = (.ok (), q) → Tracks stack (u.meet met) q
  | .mk name sources references, stack, met, p, q, hp, h => by
    obtain ⟨_, _, r, hall, hemit⟩ := visit_eq_ok h
    obtain ⟨image, bytes, _, _, rfl⟩ := emit_eq_ok hemit
    rw [SourceUnit.meet]
    exact (visitAll_tracks references hp.enter hall).leave _ _ image

theorem visitAll_tracks {files : Files} : ∀ (references : List Reference) {stack : List String}
    {met : List Reference} {p q : Pass}, Tracks stack met p →
      visitAll files references stack p = (.ok (), q) →
        Tracks stack (SourceUnit.meetAll references met) q
  | [], stack, met, p, q, hp, h => by
    rw [visitAll] at h
    obtain rfl := (Prod.mk.inj h).2
    exact hp
  | r :: rest, stack, met, p, q, hp, h => by
    obtain ⟨between, hfirst, hrest⟩ := visitAll_cons_eq_ok h
    rw [SourceUnit.meetAll]
    exact visitAll_tracks rest (visitReference_tracks r hp hfirst) hrest

theorem visitReference_tracks {files : Files} : ∀ (r : Reference) {stack : List String}
    {met : List Reference} {p q : Pass}, Tracks stack met p →
      visitReference files r stack p = (.ok (), q) →
        Tracks stack (SourceUnit.meetReference r met) q
  | .unit u, stack, met, p, q, hp, h => by
    obtain ⟨hfresh, ⟨hdone, rfl⟩ | ⟨hnew, hvisit⟩⟩ := visitReference_unit_eq_ok h
    · have hmet : met.any (·.name == u.name) = true := by
        simpa using (hp.names u.name).2 (Or.inl hdone)
      rw [SourceUnit.meetReference, if_pos hmet]
      exact hp.again hdone
    · have hmet := any_name_eq_false.2 (hp.fresh hfresh hnew)
      rw [SourceUnit.meetReference, if_neg (by simp [hmet])]
      exact visit_tracks u hp hvisit
  | .binary path, stack, met, p, q, hp, h => by
    rw [SourceUnit.meetReference]
    rcases visitReference_binary_eq_ok h with ⟨hdone, rfl⟩ | ⟨_, hadd⟩
    · exact hp.again hdone
    · obtain ⟨store, stored, image, rfl⟩ := addBinary_eq_ok hadd
      exact hp.read store stored image

end

section Complete

variable {order : Order}

theorem dangling?_eq_none {p : Pass} (h : dangling? order p = none) {name : String} {image : Image}
    (himage : p.decoded.get? name = some image) :
    ∀ r ∈ image.references, p.images.contains r = true :=
  dangling?_eq_none_iff.1 h image (List.mem_map.2 ⟨(name, image), NameMap.mem_of_get? himage, rfl⟩)

variable {files : Files} {store after : Store} {u : SourceUnit} {closure : Closure}

/-- A pass that gives a closure has found no reference without an image. -/
theorem dangling?_of_materialize (h : materialize order files store u = (.ok closure, after)) :
    ∃ q, visit files u [] (.start store) = (.ok (), q) ∧ dangling? order q = none ∧
      closure = ⟨u.name, q.images⟩ ∧ after = q.store := by
  unfold materialize at h
  split at h
  · cases h
  · next q hvisit =>
    split at h
    · cases h
    · next hnone =>
      obtain ⟨hclosure, rfl⟩ := Prod.mk.inj h
      exact ⟨q, hvisit, hnone, (Except.ok.inj hclosure).symm, rfl⟩

theorem materialize_of_visit {q : Pass} (hvisit : visit files u [] (.start store) = (.ok (), q))
    (hnone : dangling? order q = none) :
    materialize order files store u = (.ok ⟨u.name, q.images⟩, q.store) := by
  rw [materialize, hvisit]
  simp only [hnone]

/-- What gives a closure in one order gives it in every order. -/
theorem materialize_anyOrder (h : materialize order files store u = (.ok closure, after))
    (order' : Order) : materialize order' files store u = (.ok closure, after) := by
  obtain ⟨q, hvisit, hnone, rfl, rfl⟩ := dangling?_of_materialize h
  exact materialize_of_visit hvisit (dangling?_eq_none_iff.2 (dangling?_eq_none_iff.1 hnone))

end Complete

end Materialize

namespace Closure

/-- The image of the closure under this name is as it was stored, and refers to images of the
closure only. -/
def Sound (c : Closure) (name : String) : Prop :=
  ∃ stored image, c.get? name = some stored ∧ stored.digest = Digest.ofBytes stored.bytes ∧
    Image.decode stored.bytes = .ok image ∧ image.name = name ∧ image.references ⊆ c.names

/-- A directory has a file with the bytes of each image. -/
def KeptIn (c : Closure) (files : Files) (directory : String) : Prop :=
  ∀ name stored, c.get? name = some stored →
    files.read (Path.join directory (Image.fileName name)) = .ok stored.bytes

variable {c : Closure} {files : Files} {directory : String}

theorem Sound.resolves {name : String} (h : c.Sound name) (hkept : c.KeptIn files directory) :
    ∃ image, (Resolver.ofClosure files directory c).resolve name = .ok image ∧
      image.references ⊆ c.names := by
  obtain ⟨stored, image, hstored, hdigest, hdecode, hname, hreferences⟩ := h
  refine ⟨image, ?_, hreferences⟩
  rw [Resolver.resolve_ofClosure_of_read hstored (hkept name stored hstored) hdigest,
    Resolver.decoded, hdecode]
  exact if_pos hname

/-- Any image of a sound closure can be the first to be loaded. -/
theorem loads (h : ∀ name ∈ c.names, c.Sound name) (hkept : c.KeptIn files directory)
    {entry : String} (hentry : entry ∈ c.names) (depth : Nat) :
    ∃ m, Machine.load entry (.ofClosure files directory c) depth = .ok m :=
  Machine.load_succeeds (fun name hname => (h name hname).resolves hkept) hentry depth

/-- A sandbox on any image of a sound closure opens, unless the images cannot be written. -/
theorem openEntry_ne_resolution (h : ∀ name ∈ c.names, c.Sound name) {entry : String}
    (hentry : entry ∈ c.names) {directories : TemporaryDirectories} {options : ExecutionOptions}
    (hkept : ∀ made area written,
      Scratch.create directories files options.scratchRoot = (made, .ok area) →
        area.persist c.images.entries made = (written, .ok ()) → c.KeptIn written area.path)
    (fault : ResolutionFault) :
    (Sandbox.openEntry directories files c entry options).2 ≠ .error (.resolution fault) := by
  unfold Sandbox.openEntry
  split
  · intro heq
    cases heq
  split
  · intro heq
    cases heq
  · next made area hcreate =>
    split
    · intro heq
      cases heq
    · next written hpersist =>
      obtain ⟨m, hload⟩ := loads h (hkept made area written hcreate hpersist) hentry
        options.maxCallDepth
      simp only [hload]
      intro heq
      cases heq

end Closure

section Closures

variable {order : Materialize.Order} {files : Files} {store after : Store} {u : SourceUnit}
  {closure : Closure}

theorem materialize_names (h : materialize order files store u = (.ok closure, after))
    (name : String) : name ∈ closure.names ↔ u.Needs name := by
  obtain ⟨q, hvisit, rfl⟩ := Materialize.materialize_eq_ok h
  have htracks := Materialize.visit_tracks u (.start store) hvisit
  rw [SourceUnit.needs_iff]
  change name ∈ q.images.keys ↔ ∃ r ∈ u.meet [], r.name = name
  rw [htracks.names, NameMap.contains_iff_mem_keys]
  simp

theorem materialize_sound (hstore : store.Sealed)
    (h : materialize order files store u = (.ok closure, after)) :
    ∀ name ∈ closure.names, closure.Sound name := by
  intro name hname
  obtain ⟨q, hvisit, hnone, hclosure, -⟩ := Materialize.dangling?_of_materialize h
  obtain ⟨stored, hstored⟩ := NameMap.mem_keys.1 hname
  have hdigest := materialize_sealed hstore h name stored hstored
  subst hclosure
  have htracks := Materialize.visit_tracks u (.start store) hvisit
  obtain ⟨hwalked, _⟩ :=
    Materialize.visit_walks u (Materialize.Pass.consistent_start store) hvisit
  have hdecoded : ∃ image, q.decoded.get? name = some image :=
    Option.isSome_iff_exists.1 (htracks.decoded name (NameMap.contains_iff_mem_keys.2 hname))
  obtain ⟨image, himage⟩ := hdecoded
  obtain ⟨found, hfound, hdecode⟩ := hwalked.consistent.bytes name image himage
  obtain rfl := Option.some.inj (hfound.symm.trans hstored)
  refine ⟨found, image, hstored, hdigest, hdecode, hwalked.consistent.name_eq name image himage, ?_⟩
  intro r hr
  exact NameMap.contains_iff_mem_keys.1 (Materialize.dangling?_eq_none hnone himage r hr)

end Closures

/-- A closure has the images that its unit needs and no others. They are whole and refer to each
other only, so that each of them can be loaded. -/
theorem materialize_needed {order : Materialize.Order} {files : Files} {store after : Store}
    {u : SourceUnit} {closure : Closure} (hstore : store.Sealed)
    (h : materialize order files store u = (.ok closure, after)) :
    (∀ name, name ∈ closure.names ↔ u.Needs name) ∧
    closure.entry ∈ closure.names ∧
    (∀ name ∈ closure.names, closure.Sound name) ∧
    (∀ entry ∈ closure.names, ∀ (kept : Files) (directory : String) (depth : Nat),
      closure.KeptIn kept directory →
        ∃ m, Machine.load entry (.ofClosure kept directory closure) depth = .ok m) ∧
    ∀ entry ∈ closure.names, ∀ (directories : TemporaryDirectories) (kept : Files)
      (options : ExecutionOptions),
      (∀ made area written,
        Scratch.create directories kept options.scratchRoot = (made, .ok area) →
          area.persist closure.images.entries made = (written, .ok ()) →
            closure.KeptIn written area.path) →
        ∀ fault, (Sandbox.openEntry directories kept closure entry options).2 ≠
          .error (.resolution fault) := by
  have hsound := materialize_sound hstore h
  refine ⟨materialize_names h, ?_, hsound, ?_, ?_⟩
  · have hentry : closure.entry = u.name := (materialize_entry h).1
    rw [hentry, materialize_names h]
    exact .self
  · intro entry hentry kept directory depth hkept
    exact Closure.loads hsound hkept hentry depth
  · intro entry hentry directories kept options hkept fault
    exact Closure.openEntry_ne_resolution hsound hentry hkept fault

theorem olderStore_sealed : olderStore.Sealed := by
  intro name stored hstored
  rw [olderStore, Store.add, NameMap.get?_insert] at hstored
  split at hstored
  · obtain rfl := Option.some.inj hstored
    rfl
  · cases hstored

theorem outerUnit_kept :
    ((materialize .sorted .fresh olderStore outerUnit).1.toOption.any fun closure =>
    (closure.names.contains "Lib") &&
      match Scratch.create Programs.directories .fresh none with
      | (_, .error _) => false
      | (made, .ok area) =>
        match area.persist closure.images.entries made with
        | (_, .error _) => false
        | (written, .ok ()) => decide (∀ e ∈ closure.images.entries,
            written.read (Path.join area.path (Image.fileName e.1)) = .ok e.2.bytes)) = true := by
  decide +kernel

/-- The unit inside the other one is kept under its name in a directory of its own. -/
theorem outerUnit_keeps : ∃ closure after made area written,
    materialize .sorted .fresh olderStore outerUnit = (.ok closure, after) ∧
    "Lib" ∈ closure.names ∧ Scratch.create Programs.directories .fresh none = (made, .ok area) ∧
    area.persist closure.images.entries made = (written, .ok ()) ∧
    closure.KeptIn written area.path := by
  have hcheck := outerUnit_kept
  obtain ⟨closure, after, hrun⟩ := outerUnit_materializes
  rw [hrun] at hcheck
  simp only [Except.toOption, Option.any_some, Bool.and_eq_true] at hcheck
  obtain ⟨hname, hcheck⟩ := hcheck
  split at hcheck
  · cases hcheck
  · next made area hcreate =>
    split at hcheck
    · cases hcheck
    · next written hpersist =>
      refine ⟨closure, after, made, area, written, hrun, List.contains_iff_mem.1 hname, hcreate,
        hpersist, ?_⟩
      intro name stored hstored
      exact of_decide_eq_true hcheck (name, stored) (NameMap.mem_of_get? hstored)

theorem materialize_needed_outer : ∃ closure after,
    materialize .sorted .fresh olderStore outerUnit = (.ok closure, after) ∧
    (∀ name, name ∈ closure.names ↔ outerUnit.Needs name) ∧ closure.Sound "Lib" ∧
    (∃ kept directory m,
      Machine.load "Lib" (.ofClosure kept directory closure) Machine.defaultCallDepth = .ok m) ∧
    ∀ fault, (Sandbox.openEntry Programs.directories .fresh closure "Lib"
      Settings.default.options).2 ≠ .error (.resolution fault) := by
  obtain ⟨closure, after, made, area, written, hrun, hlib, hcreate, hpersist, hkept⟩ :=
    outerUnit_keeps
  obtain ⟨hnames, -, hsound, hloads, hopens⟩ := materialize_needed olderStore_sealed hrun
  refine ⟨closure, after, hrun, hnames, hsound "Lib" hlib, ?_, ?_⟩
  · exact ⟨written, area.path, hloads "Lib" hlib written area.path _ hkept⟩
  · refine hopens "Lib" hlib Programs.directories .fresh Settings.default.options ?_
    intro made' area' written' hcreate' hpersist'
    obtain ⟨rfl, harea⟩ := Prod.mk.inj (hcreate.symm.trans hcreate')
    obtain rfl := Except.ok.inj harea
    obtain ⟨rfl, -⟩ := Prod.mk.inj (hpersist.symm.trans hpersist')
    exact hkept

end TestBench
