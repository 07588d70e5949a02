import Mathlib.Data.Set.Finite.Basic
import TestBench.Proofs.ReadBackImages
import TestBench.Proofs.ReferenceWaves

/-!
Which images are loaded, and in which order. Loading goes through the waves of
references and leaves out what it has met already, so it ends as soon as only
finitely many names are reached; it asks for each of them once, and it stops at
the first one in this order that has no image.
-/
namespace TestBench

/-- How far the waves have been gone through: up to some place everything is loaded, and the queue
has the new names from there on. -/
structure Swept (r : Resolution) (entry : String) (loaded queue : List String) (n : Nat)
    (earlier now : List String) : Prop where
  wave_eq : r.wave entry n = earlier ++ now
  before_loaded : ∀ k < n, ∀ name ∈ r.wave entry k, name ∈ loaded
  earlier_loaded : ∀ name ∈ earlier, name ∈ loaded
  queued : newNames loaded queue = newNames loaded (now ++ earlier.flatMap r.referencesOf)

namespace Swept

variable {r : Resolution} {entry name : String} {loaded queue earlier now : List String} {n : Nat}

theorem start (r : Resolution) (entry : String) : Swept r entry [] [entry] 0 [] [entry] where
  wave_eq := rfl
  before_loaded k hk := absurd hk (Nat.not_lt_zero k)
  earlier_loaded := by simp
  queued := rfl

theorem skip (h : Swept r entry loaded (name :: queue) n earlier now) (hname : name ∈ loaded) :
    Swept r entry loaded queue n earlier now :=
  ⟨h.wave_eq, h.before_loaded, h.earlier_loaded, (newNames_of_mem hname).symm.trans h.queued⟩

section Pass

variable (h : Swept r entry loaded queue n earlier now)
  (hcovered : ∀ other ∈ loaded, ∀ reference ∈ r.referencesOf other,
    reference ∈ loaded ∨ reference ∈ queue)

include h hcovered

/-- What loaded images refer to is loaded or still ahead. -/
theorem met {passed : List String} (hpassed : ∀ other ∈ passed, other ∈ loaded) :
    ∀ reference ∈ passed.flatMap r.referencesOf,
      reference ∈ loaded ∨ reference ∈ now ++ earlier.flatMap r.referencesOf := by
  intro reference href
  obtain ⟨other, hother, href⟩ := List.mem_flatMap.1 href
  by_cases hknown : reference ∈ loaded
  · exact Or.inl hknown
  · have hqueue := (hcovered other (hpassed other hother) reference href).resolve_left hknown
    have hnew : reference ∈ newNames loaded queue := mem_newNames.2 ⟨hqueue, hknown⟩
    rw [h.queued] at hnew
    exact Or.inr (mem_newNames.1 hnew).1

theorem pass {passed rest : List String} (hnow : now = passed ++ rest)
    (hpassed : ∀ other ∈ passed, other ∈ loaded) :
    Swept r entry loaded queue n (earlier ++ passed) rest := by
  have hmet := h.met hcovered hpassed
  have hfront := newNames_append_of_loaded hpassed (rest ++ earlier.flatMap r.referencesOf)
  subst hnow
  have hback : newNames loaded (rest ++ earlier.flatMap r.referencesOf ++
      passed.flatMap r.referencesOf) =
        newNames loaded (rest ++ earlier.flatMap r.referencesOf) := by
    refine newNames_append_of_met fun reference href => ?_
    rcases hmet reference href with hloaded | hahead
    · exact Or.inl hloaded
    · rw [List.append_assoc, List.mem_append] at hahead
      exact hahead.imp_left (hpassed reference)
  refine ⟨by rw [h.wave_eq, List.append_assoc], h.before_loaded, ?_, ?_⟩
  · exact List.forall_mem_append.2 ⟨h.earlier_loaded, hpassed⟩
  · rw [h.queued, List.append_assoc, hfront, ← hback, List.flatMap_append, List.append_assoc]

/-- When a whole wave is loaded, the next one begins with the references of its first name. -/
theorem nextWave (hnow : ∀ other ∈ now, other ∈ loaded) :
    Swept r entry loaded queue (n + 1) [] (r.wave entry (n + 1)) := by
  have hpassed := h.pass hcovered (List.append_nil now).symm hnow
  have hwave : r.wave entry n = earlier ++ now := h.wave_eq
  refine ⟨rfl, ?_, by simp, ?_⟩
  · intro k hk other hother
    rcases Nat.lt_succ_iff_lt_or_eq.1 hk with hk | rfl
    · exact h.before_loaded k hk other hother
    · exact hpassed.earlier_loaded other (hwave ▸ hother)
  · rw [hpassed.queued, Resolution.wave, hwave, List.nil_append, List.flatMap_nil, List.append_nil]

theorem reach {later : List String} (hnext : newNames loaded now = name :: later) :
    ∃ n earlier now, Swept r entry loaded queue n earlier (name :: now) := by
  obtain ⟨passed, rest, hnow, hpassed, -⟩ := newNames_eq_cons hnext
  exact ⟨n, earlier ++ passed, rest, h.pass hcovered hnow hpassed⟩

end Pass

/-- A new name at the head of the queue is the next new one in the waves, either in the same wave
or in the one that follows. -/
theorem advance (h : Swept r entry loaded (name :: queue) n earlier now) (hname : name ∉ loaded)
    (hcovered : ∀ other ∈ loaded, ∀ reference ∈ r.referencesOf other,
      reference ∈ loaded ∨ reference ∈ name :: queue) :
    ∃ n earlier now, Swept r entry loaded (name :: queue) n earlier (name :: now) := by
  have hqueued := h.queued
  rw [newNames_of_not_mem hname, newNames_append] at hqueued
  -- The queue goes on with this wave as long as a name of it is new, and then with the next one.
  cases hnext : newNames loaded now with
  | cons first later =>
    rw [hnext, List.cons_append] at hqueued
    obtain ⟨rfl, -⟩ := List.cons.inj hqueued
    exact h.reach hcovered hnext
  | nil =>
    have hnow : ∀ other ∈ now, other ∈ loaded := by
      intro other hother
      by_contra hnew
      have hmem : other ∈ newNames loaded now := mem_newNames.2 ⟨hother, hnew⟩
      rw [hnext] at hmem
      cases hmem
    have hwave := h.nextWave hcovered hnow
    have hfirst := hwave.queued
    rw [newNames_of_not_mem hname, List.flatMap_nil, List.append_nil] at hfirst
    exact hwave.reach hcovered hfirst.symm

/-- An image that is loaded stands behind all that was loaded, and its references behind all that
was queued. -/
theorem take (h : Swept r entry loaded (name :: queue) n earlier (name :: now))
    (hname : name ∉ loaded) :
    Swept r entry (loaded ++ [name]) (queue ++ r.referencesOf name) n (earlier ++ [name]) now where
  wave_eq := by rw [h.wave_eq, List.append_assoc]; rfl
  before_loaded k hk other hother := List.mem_append_left _ (h.before_loaded k hk other hother)
  earlier_loaded := by
    rw [List.forall_mem_append, List.forall_mem_singleton]
    exact ⟨fun other hother => List.mem_append_left _ (h.earlier_loaded other hother), by simp⟩
  queued := by
    have hsame : ∀ other, other ∈ name :: loaded ↔ other ∈ loaded ++ [name] := by simp [or_comm]
    have hqueued := h.queued
    rw [List.cons_append, newNames_of_not_mem hname, newNames_of_not_mem hname,
      List.cons_inj_right, newNames_congr hsame, newNames_congr hsame] at hqueued
    rw [newNames_append_congr hqueued, List.append_assoc, List.flatMap_append,
      List.flatMap_singleton]

theorem firstFailure (h : Swept r entry loaded queue n earlier (name :: now))
    (hloaded : ∀ other ∈ loaded, r.Resolves other) (hname : ¬ r.Resolves name) :
    r.FirstFailure entry name :=
  ⟨n, earlier, now, h.wave_eq, hname,
    fun other hother => hloaded other (h.earlier_loaded other hother),
    fun k hk other hother => hloaded other (h.before_loaded k hk other hother)⟩

end Swept

namespace Machine

variable {known : Resolver} {loaded images : List (String × Image)} {queue : List String}
  {entry : String} {limit : Nat}

theorem Covered.of_resolves (hcovered : Covered loaded queue)
    (hloaded : ∀ e ∈ loaded, known.resolve e.1 = .ok e.2) :
    ∀ other ∈ loaded.map (·.1), ∀ reference ∈ Resolution.referencesOf known.resolve other,
      reference ∈ loaded.map (·.1) ∨ reference ∈ queue := by
  intro other hother reference href
  obtain ⟨e, he, rfl⟩ := List.mem_map.1 hother
  obtain ⟨image, himage, href⟩ := Resolution.mem_referencesOf.1 href
  obtain rfl := Except.ok.inj ((hloaded e he).symm.trans himage)
  exact hcovered e he reference href

/-- Loading that fails has gone through the waves up to the first name without an image. -/
theorem loadQueue_fails {fault : ResolutionFault} (h : loadQueue known loaded queue = .error fault)
    (hswept : ∃ n earlier now,
      Swept known.resolve entry (loaded.map (·.1)) queue n earlier now)
    (hcovered : Covered loaded queue) (hloaded : ∀ e ∈ loaded, known.resolve e.1 = .ok e.2) :
    ∃ name, Resolution.FirstFailure known.resolve entry name ∧
      known.resolve name = .error fault := by
  fun_induction loadQueue known loaded queue with
  | case1 => cases h
  | case2 loaded name rest hpresent ih =>
    have hname := mem_names.2 hpresent
    obtain ⟨n, earlier, now, hswept⟩ := hswept
    exact ih h ⟨n, earlier, now, hswept.skip hname⟩ (hcovered.skip hname) hloaded
  | case3 loaded name rest habsent found hfound =>
    obtain rfl := Except.error.inj h
    obtain ⟨n, earlier, now, hswept⟩ := hswept
    obtain ⟨n, earlier, now, hswept⟩ :=
      hswept.advance (mt mem_names.1 habsent) (hcovered.of_resolves hloaded)
    refine ⟨name, hswept.firstFailure ?_ ?_, hfound⟩
    · intro other hother
      obtain ⟨e, he, rfl⟩ := List.mem_map.1 hother
      exact ⟨e.2, hloaded e he⟩
    · rintro ⟨image, himage⟩
      cases hfound.symm.trans himage
  | case4 loaded name rest habsent image himage ih =>
    have hname := mt mem_names.1 habsent
    obtain ⟨n, earlier, now, hswept⟩ := hswept
    obtain ⟨n, earlier, now, hswept⟩ := hswept.advance hname (hcovered.of_resolves hloaded)
    have hreferences : Resolution.referencesOf known.resolve name = image.references := by
      rw [Resolution.referencesOf, himage]
    have htaken := hswept.take hname
    rw [hreferences] at htaken
    refine ih h ⟨n, _, now, by simpa using htaken⟩ (hcovered.add image) ?_
    rw [List.forall_mem_append, List.forall_mem_singleton]
    exact ⟨hloaded, himage⟩

theorem loadQueue_reached (h : loadQueue known loaded queue = .ok images)
    (hloaded : ∀ name ∈ loaded.map (·.1), Resolution.Reaches known.resolve entry name)
    (hqueue : ∀ name ∈ queue, Resolution.Reaches known.resolve entry name) :
    ∀ name ∈ images.map (·.1), Resolution.Reaches known.resolve entry name := by
  fun_induction loadQueue known loaded queue with
  | case1 loaded =>
    obtain rfl := Except.ok.inj h
    exact hloaded
  | case2 loaded name rest _ ih => exact ih h hloaded (List.forall_mem_cons.1 hqueue).2
  | case3 => cases h
  | case4 loaded name rest _ image himage ih =>
    obtain ⟨hname, hrest⟩ := List.forall_mem_cons.1 hqueue
    refine ih h ?_ ?_
    · rw [List.map_append, List.forall_mem_append]
      exact ⟨hloaded, by simpa using hname⟩
    · exact List.forall_mem_append.2 ⟨hrest, fun reference href => .reference hname himage href⟩

theorem loadQueue_nodup (h : loadQueue known loaded queue = .ok images)
    (hloaded : (loaded.map (·.1)).Nodup) : (images.map (·.1)).Nodup := by
  fun_induction loadQueue known loaded queue with
  | case1 loaded =>
    obtain rfl := Except.ok.inj h
    exact hloaded
  | case2 loaded name rest _ ih => exact ih h hloaded
  | case3 => cases h
  | case4 loaded name rest habsent image _ ih =>
    refine ih h ?_
    rw [List.map_append, List.map_singleton, List.nodup_append]
    refine ⟨hloaded, List.nodup_singleton _, ?_⟩
    rintro other hother _ hname rfl
    rw [List.mem_singleton.1 hname] at hother
    exact habsent (mem_names.1 hother)

theorem mem_images_iff_reaches (h : loadQueue known [] [entry] = .ok images) {name : String} :
    name ∈ images.map (·.1) ↔ Resolution.Reaches known.resolve entry name := by
  constructor
  · refine loadQueue_reached h (fun _ hmem => by cases hmem) ?_ name
    exact List.forall_mem_singleton.2 .entry
  · intro hreaches
    induction hreaches with
    | entry => exact (loadQueue_names h).2 entry List.mem_cons_self
    | @reference name reference image hname himage href ih =>
      obtain ⟨e, he, rfl⟩ := List.mem_map.1 ih
      have hresolves := loadQueue_resolves h (fun _ hmem => by cases hmem) e he
      obtain rfl := Except.ok.inj (hresolves.symm.trans himage)
      have hcovered := loadQueue_covered h fun _ hmem => by cases hmem
      exact (hcovered e he reference href).resolve_right List.not_mem_nil

/-- Loading fails only at the first name without an image. -/
theorem load_fails {fault : ResolutionFault} (h : load entry known limit = .error fault) :
    ∃ name, Resolution.FirstFailure known.resolve entry name ∧
      known.resolve name = .error fault := by
  unfold load at h
  split at h
  · next other hqueue =>
    obtain rfl := Except.error.inj h
    exact loadQueue_fails hqueue ⟨0, [], [entry], Swept.start _ _⟩ (fun _ hmem => by cases hmem)
      fun _ hmem => by cases hmem
  · cases h

/-- A machine that was loaded has the images of the names that are reached. -/
theorem image?_eq_some_iff {m : Machine} (h : load entry known limit = .ok m) {name : String}
    {image : Image} : m.image? name = some image ↔
      Resolution.Reaches known.resolve entry name ∧ known.resolve name = .ok image := by
  have hnames := @mem_images_iff_reaches known m.images entry (load_eq_ok h) name
  constructor
  · intro himage
    have hmem : name ∈ m.images.map (·.1) := List.mem_map.2 ⟨_, mem_of_image? himage, rfl⟩
    exact ⟨hnames.1 hmem, load_resolves h himage⟩
  · rintro ⟨hname, himage⟩
    obtain ⟨found, hfound⟩ := image?_of_mem (hnames.2 hname)
    rw [hfound, Except.ok.inj ((load_resolves h hfound).symm.trans himage)]

theorem load_maxCallDepth {m : Machine} (h : load entry known limit = .ok m) :
    m.maxCallDepth = min limit callDepthCeiling := by
  unfold load at h
  split at h
  · cases h
  · obtain rfl := Except.ok.inj h
    rfl

/-- The loop of `loadQueue` with the names that it has asked for and no bound on these, if it has
ended after this many turns. -/
def loadAsking (r : Resolution) (loaded : List (String × Image)) : Nat → List String →
    List String → Option (Except ResolutionFault (List (String × Image)) × List String)
  | 0, _, _ => none
  | _ + 1, [], asked => some (.ok loaded, asked)
  | turns + 1, name :: rest, asked =>
    if loaded.any (·.1 == name) = true then loadAsking r loaded turns rest asked
    else match r name with
      | .error fault => some (.error fault, asked ++ [name])
      | .ok image =>
        loadAsking r (loaded ++ [(name, image)]) turns (rest ++ image.references) (asked ++ [name])

/-- `load` for any resolution, with the names that it has asked for. -/
def loadFrom (entry : String) (r : Resolution) (limit turns : Nat) :
    Option (Except ResolutionFault Machine × List String) :=
  (loadAsking r [] turns [entry] []).map fun (result, asked) =>
    (result.map fun images => ⟨entry, images, min limit callDepthCeiling⟩, asked)

/-- The loop ends when a resolver knows all names that are reached, and asks for none twice. -/
theorem loadAsking_eq {r : Resolution}
    (hknown : ∀ name, r.Reaches entry name → known.resolve name = r name) {asked : List String}
    (hqueue : ∀ name ∈ queue, r.Reaches entry name) :
    ∃ enough later, (∀ turns, enough < turns → loadAsking r loaded turns queue asked =
        some (loadQueue known loaded queue, asked ++ later)) ∧
      later.Nodup ∧ ∀ name ∈ later, name ∉ loaded.map (·.1) := by
  fun_induction loadQueue known loaded queue generalizing asked with
  | case1 loaded =>
    refine ⟨0, [], fun turns hturns => ?_, List.nodup_nil, by simp⟩
    obtain ⟨turns, rfl⟩ := Nat.exists_eq_add_one.2 hturns
    rw [loadAsking, List.append_nil]
  | case2 loaded name rest hpresent ih =>
    obtain ⟨enough, later, hlater, hnew⟩ := ih (List.forall_mem_cons.1 hqueue).2
    refine ⟨enough + 1, later, fun turns hturns => ?_, hnew⟩
    obtain ⟨turns, rfl⟩ := Nat.exists_eq_add_one.2 (Nat.zero_lt_of_lt hturns)
    rw [loadAsking, if_pos hpresent, hlater turns (Nat.lt_of_succ_lt_succ hturns)]
  | case3 loaded name rest habsent fault hfault =>
    rw [hknown name (List.forall_mem_cons.1 hqueue).1] at hfault
    refine ⟨0, [name], fun turns hturns => ?_, List.nodup_singleton _, ?_⟩
    · obtain ⟨turns, rfl⟩ := Nat.exists_eq_add_one.2 hturns
      rw [loadAsking, if_neg habsent, hfault]
    · exact List.forall_mem_singleton.2 (mt mem_names.1 habsent)
  | case4 loaded name rest habsent image himage ih =>
    obtain ⟨hname, hrest⟩ := List.forall_mem_cons.1 hqueue
    rw [hknown name hname] at himage
    have hmore : ∀ reference ∈ rest ++ image.references, r.Reaches entry reference :=
      List.forall_mem_append.2 ⟨hrest, fun reference href => .reference hname himage href⟩
    obtain ⟨enough, later, hlater, hnodup, hnew⟩ := @ih (asked ++ [name]) hmore
    simp only [List.map_append, List.map_singleton, List.mem_append, List.mem_singleton,
      not_or] at hnew
    refine ⟨enough + 1, name :: later, fun turns hturns => ?_, ?_, ?_⟩
    · obtain ⟨turns, rfl⟩ := Nat.exists_eq_add_one.2 (Nat.zero_lt_of_lt hturns)
      have hrun := hlater turns (Nat.lt_of_succ_lt_succ hturns)
      rw [List.append_assoc, List.singleton_append] at hrun
      rw [loadAsking, if_neg habsent, himage]
      exact hrun
    · exact List.nodup_cons.2 ⟨fun hmem => (hnew name hmem).2 rfl, hnodup⟩
    · rw [List.forall_mem_cons]
      exact ⟨mt mem_names.1 habsent, fun other hother => (hnew other hother).1⟩

/-- A resolver for all names that are reached, when these are finitely many. -/
theorem exists_known {r : Resolution} (hfinite : {name | r.Reaches entry name}.Finite) :
    ∃ known : Resolver, ∀ name, r.Reaches entry name → known.resolve name = r name := by
  refine ⟨⟨hfinite.toFinset.toList, r⟩, fun name hname => ?_⟩
  rw [Resolver.resolve, if_pos]
  simpa using hname

/-- Loading ends if finitely many names are reached. It asks for each of them once, and loads them
all or fails with the first that has no image. -/
theorem load_reached (r : Resolution) (entry : String) (limit : Nat)
    (hfinite : {name | r.Reaches entry name}.Finite) :
    ∃ result asked,
      (∃ enough, ∀ turns, enough < turns → loadFrom entry r limit turns = some (result, asked)) ∧
      asked.Nodup ∧
      ((∀ name, r.Reaches entry name → r.Resolves name) →
        ∃ m, result = .ok m ∧ m.entry = entry ∧ m.maxCallDepth = min limit callDepthCeiling ∧
          (m.images.map (·.1)).Nodup ∧
          ∀ name image, m.image? name = some image ↔
            r.Reaches entry name ∧ r name = .ok image) ∧
      ((∃ name, r.Reaches entry name ∧ ¬ r.Resolves name) →
        ∃ name fault, r.FirstFailure entry name ∧ r name = .error fault ∧
          result = .error fault) ∧
      ∀ known : Resolver, (∀ name, r.Reaches entry name → known.resolve name = r name) →
        load entry known limit = result := by
  obtain ⟨known, hknown⟩ := exists_known hfinite
  have hanswer : ∀ known : Resolver,
      (∀ name, r.Reaches entry name → known.resolve name = r name) →
        ∃ enough asked, (∀ turns, enough < turns →
          loadFrom entry r limit turns = some (load entry known limit, asked)) ∧ asked.Nodup := by
    intro known hknown
    obtain ⟨enough, later, hlater, hnodup, -⟩ :=
      loadAsking_eq hknown (List.forall_mem_singleton.2 .entry)
    refine ⟨enough, later, fun turns hturns => ?_, hnodup⟩
    rw [loadFrom, hlater turns hturns, load]
    cases loadQueue known [] [entry] <;> rfl
  have hreaches : ∀ name,
      Resolution.Reaches known.resolve entry name ↔ r.Reaches entry name := fun name =>
    Resolution.reaches_congr hknown
  obtain ⟨enough, asked, hasked, hnodup⟩ := hanswer known hknown
  refine ⟨load entry known limit, asked, ⟨enough, hasked⟩, hnodup, ?_, ?_, ?_⟩
  · intro hresolves
    cases hload : load entry known limit with
    | error fault =>
      obtain ⟨name, hfirst, -⟩ := load_fails hload
      have hfirst := hfirst.of_congr hknown
      exact absurd (hresolves name hfirst.reaches) hfirst.not_resolves
    | ok m =>
      refine ⟨m, rfl, load_entry hload, load_maxCallDepth hload,
        loadQueue_nodup (load_eq_ok hload) List.nodup_nil, fun name image => ?_⟩
      rw [image?_eq_some_iff hload, hreaches]
      exact and_congr_right fun hname => by rw [hknown name hname]
  · rintro ⟨name, hname, hfails⟩
    cases hload : load entry known limit with
    | error fault =>
      obtain ⟨first, hfirst, hfault⟩ := load_fails hload
      have hfirst := hfirst.of_congr hknown
      exact ⟨first, fault, hfirst, hknown first hfirst.reaches ▸ hfault, rfl⟩
    | ok m =>
      obtain ⟨image, himage⟩ :=
        image?_of_mem ((mem_images_iff_reaches (load_eq_ok hload)).2 ((hreaches name).2 hname))
      have hresolves := load_resolves hload himage
      rw [hknown name hname] at hresolves
      exact absurd ⟨image, hresolves⟩ hfails
  · intro other hother
    obtain ⟨enough', asked', hasked', -⟩ := hanswer other hother
    have hrun := hasked (enough + enough' + 1) (by omega)
    have hrun' := hasked' (enough + enough' + 1) (by omega)
    exact (Prod.mk.inj (Option.some.inj (hrun'.symm.trans hrun))).1

/-- Two images that refer to each other, one of them to itself and to a name without an image. -/
def ring : Resolution
  | "Calculator" => .ok ⟨"Calculator", ["Adder", "Calculator"], []⟩
  | "Adder" => .ok ⟨"Adder", ["Calculator", "Printer"], []⟩
  | name => .error (.notInClosure name)

theorem ring_reaches {name : String} (h : ring.Reaches "Calculator" name) :
    name ∈ ["Calculator", "Adder", "Printer"] := by
  induction h with
  | entry => decide
  | reference _ himage href _ =>
    unfold ring at himage
    split at himage
    · obtain rfl := Except.ok.inj himage
      have hsubset : ["Adder", "Calculator"] ⊆ ["Calculator", "Adder", "Printer"] := by decide
      exact hsubset href
    · obtain rfl := Except.ok.inj himage
      have hsubset : ["Calculator", "Printer"] ⊆ ["Calculator", "Adder", "Printer"] := by decide
      exact hsubset href
    · cases himage

theorem load_reached_ring :
    {name | ring.Reaches "Calculator" name}.Finite ∧ ∃ asked,
      (∃ enough, ∀ turns, enough < turns →
        loadFrom "Calculator" ring 8 turns = some (.error (.notInClosure "Printer"), asked)) ∧
        asked.Nodup := by
  have hfinite : {name | ring.Reaches "Calculator" name}.Finite :=
    (List.finite_toSet ["Calculator", "Adder", "Printer"]).subset fun _ h => ring_reaches h
  obtain ⟨result, asked, hload, hnodup, -, hfails, -⟩ := load_reached ring "Calculator" 8 hfinite
  have hadder : ring.Reaches "Calculator" "Adder" := .reference .entry rfl (by decide)
  have hprinter : ring.Reaches "Calculator" "Printer" := .reference hadder rfl (by decide)
  have hnone : ¬ ring.Resolves "Printer" := by
    rintro ⟨image, himage⟩
    cases himage
  obtain ⟨name, fault, hfirst, hfault, rfl⟩ := hfails ⟨"Printer", hprinter, hnone⟩
  refine ⟨hfinite, asked, ?_, hnodup⟩
  have hname := ring_reaches hfirst.reaches
  simp only [List.mem_cons, List.not_mem_nil, or_false] at hname
  rcases hname with rfl | rfl | rfl
  · cases hfault
  · cases hfault
  · obtain rfl := Except.error.inj hfault
    exact hload

end Machine

end TestBench
