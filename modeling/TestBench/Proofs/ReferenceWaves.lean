import Mathlib.Data.List.Basic
import Mathlib.Tactic.Tauto
import TestBench.Machine.Loading

/-!
Names in the order of references. A name is reached from the entry by the
references of images, and the names that are reached can be gone through in
waves: the entry, its references, their references, and so on, each wave in the
order of the one before it. The waves name a name again wherever it is referred
to; the new names of a list are what is left when each counts only where it
comes first.
-/
namespace TestBench

/-- What names are resolved to: each to an image or to a fault. -/
abbrev Resolution := String → Except ResolutionFault Image

namespace Resolution

variable (r : Resolution) (entry : String)

def Resolves (name : String) : Prop := ∃ image, r name = .ok image

/-- The names that the image of a name refers to, if it has an image. -/
def referencesOf (name : String) : List String :=
  match r name with
  | .ok image => image.references
  | .error _ => []

/-- The names that references lead to from the entry. -/
inductive Reaches : String → Prop
  | entry : Reaches entry
  | reference {name reference : String} {image : Image} (hname : Reaches name)
      (himage : r name = .ok image) (href : reference ∈ image.references) : Reaches reference

/-- The names that so many references lead to, in the order of the references. -/
def wave : Nat → List String
  | 0 => [entry]
  | n + 1 => (wave n).flatMap r.referencesOf

/-- The name has no image, and every name has one that stands before it in the waves. -/
def FirstFailure (name : String) : Prop :=
  ∃ n earlier later, r.wave entry n = earlier ++ name :: later ∧ ¬ r.Resolves name ∧
    (∀ other ∈ earlier, r.Resolves other) ∧ ∀ k < n, ∀ other ∈ r.wave entry k, r.Resolves other

variable {r : Resolution} {entry name : String}

theorem mem_referencesOf {reference : String} :
    reference ∈ r.referencesOf name ↔
      ∃ image, r name = .ok image ∧ reference ∈ image.references := by
  unfold referencesOf
  cases r name <;> simp

theorem reaches_iff_wave : r.Reaches entry name ↔ ∃ n, name ∈ r.wave entry n := by
  constructor
  · intro h
    induction h with
    | entry => exact ⟨0, List.mem_singleton_self entry⟩
    | reference _ himage href ih =>
      obtain ⟨n, hn⟩ := ih
      exact ⟨n + 1, List.mem_flatMap.2 ⟨_, hn, mem_referencesOf.2 ⟨_, himage, href⟩⟩⟩
  · rintro ⟨n, hn⟩
    induction n generalizing name with
    | zero =>
      rw [List.mem_singleton.1 hn]
      exact .entry
    | succ n ih =>
      obtain ⟨above, habove, hname⟩ := List.mem_flatMap.1 hn
      obtain ⟨image, himage, href⟩ := mem_referencesOf.1 hname
      exact .reference (ih habove) himage href

theorem FirstFailure.reaches (h : r.FirstFailure entry name) : r.Reaches entry name := by
  obtain ⟨n, earlier, later, hwave, -⟩ := h
  exact reaches_iff_wave.2 ⟨n, hwave ▸ List.mem_append_right earlier List.mem_cons_self⟩

theorem FirstFailure.not_resolves (h : r.FirstFailure entry name) : ¬ r.Resolves name := by
  obtain ⟨_, _, _, -, hname, -⟩ := h
  exact hname

section Congruences

variable {r' : Resolution} (h : ∀ name, r.Reaches entry name → r' name = r name)

include h

/-- The waves depend only on what the names in them are resolved to. -/
theorem wave_congr (n : Nat) : r'.wave entry n = r.wave entry n := by
  induction n with
  | zero => rfl
  | succ n ih =>
    rw [wave, wave, ih]
    refine List.flatMap_congr fun name hname => ?_
    rw [referencesOf, referencesOf, h name (reaches_iff_wave.2 ⟨n, hname⟩)]

theorem reaches_congr : r'.Reaches entry name ↔ r.Reaches entry name := by
  rw [reaches_iff_wave, reaches_iff_wave]
  simp only [wave_congr h]

theorem resolves_congr (hname : r.Reaches entry name) : r'.Resolves name ↔ r.Resolves name := by
  rw [Resolves, Resolves, h name hname]

theorem FirstFailure.of_congr (hfirst : r'.FirstFailure entry name) :
    r.FirstFailure entry name := by
  have hreaches := (reaches_congr h).1 hfirst.reaches
  obtain ⟨n, earlier, later, hwave, hname, hearlier, hbefore⟩ := hfirst
  simp only [wave_congr h] at hwave hbefore
  refine ⟨n, earlier, later, hwave, mt (resolves_congr h hreaches).2 hname, ?_, ?_⟩
  · intro other hother
    have hmem : other ∈ r.wave entry n := hwave ▸ List.mem_append_left _ hother
    exact (resolves_congr h (reaches_iff_wave.2 ⟨n, hmem⟩)).1 (hearlier other hother)
  · intro k hk other hother
    exact (resolves_congr h (reaches_iff_wave.2 ⟨k, hother⟩)).1 (hbefore k hk other hother)

end Congruences

end Resolution

section NewNames

/-- The names of a list that are not known, each where it comes first. -/
def newNames (known : List String) : List String → List String
  | [] => []
  | name :: rest =>
    if name ∈ known then newNames known rest else name :: newNames (name :: known) rest

variable {known known' names : List String} {name : String}

theorem newNames_of_mem (h : name ∈ known) :
    newNames known (name :: names) = newNames known names := if_pos h

theorem newNames_of_not_mem (h : name ∉ known) :
    newNames known (name :: names) = name :: newNames (name :: known) names := if_neg h

theorem newNames_congr (h : ∀ other, other ∈ known ↔ other ∈ known') (names : List String) :
    newNames known names = newNames known' names := by
  induction names generalizing known known' with
  | nil => rfl
  | cons name rest ih =>
    by_cases hname : name ∈ known
    · rw [newNames_of_mem hname, newNames_of_mem ((h name).1 hname), ih h]
    · rw [newNames_of_not_mem hname, newNames_of_not_mem (mt (h name).2 hname)]
      have hmore : ∀ other, other ∈ name :: known ↔ other ∈ name :: known' := by
        intro other
        rw [List.mem_cons, List.mem_cons, h]
      rw [ih hmore]

theorem mem_newNames : name ∈ newNames known names ↔ name ∈ names ∧ name ∉ known := by
  induction names generalizing known with
  | nil => simp [newNames]
  | cons first rest ih =>
    by_cases hfirst : first ∈ known
    · rw [newNames_of_mem hfirst, ih, List.mem_cons]
      constructor
      · exact fun h => ⟨Or.inr h.1, h.2⟩
      · rintro ⟨rfl | hrest, hnew⟩
        · exact absurd hfirst hnew
        · exact ⟨hrest, hnew⟩
    · rw [newNames_of_not_mem hfirst, List.mem_cons, ih, List.mem_cons, List.mem_cons]
      by_cases hname : name = first
      · subst hname
        simp [hfirst]
      · simp [hname]

theorem newNames_append (known front back : List String) :
    newNames known (front ++ back) = newNames known front ++ newNames (front ++ known) back := by
  induction front generalizing known with
  | nil => rfl
  | cons name rest ih =>
    by_cases hname : name ∈ known
    · have hsame : ∀ other, other ∈ rest ++ known ↔ other ∈ (name :: rest) ++ known := by
        intro other
        have hother : other = name → other ∈ known := fun heq => heq ▸ hname
        simp only [List.cons_append, List.mem_cons, List.mem_append]
        tauto
      rw [List.cons_append, newNames_of_mem hname, newNames_of_mem hname, ih,
        newNames_congr hsame]
    · have hsame : ∀ other, other ∈ rest ++ name :: known ↔ other ∈ (name :: rest) ++ known := by
        intro other
        simp only [List.cons_append, List.mem_cons, List.mem_append]
        tauto
      rw [List.cons_append, newNames_of_not_mem hname, newNames_of_not_mem hname, ih,
        newNames_congr hsame]
      rfl

/-- What is known or has come before adds nothing. -/
theorem newNames_append_of_met {more : List String}
    (h : ∀ other ∈ more, other ∈ known ∨ other ∈ names) :
    newNames known (names ++ more) = newNames known names := by
  have hnone : newNames (names ++ known) more = [] := by
    rw [List.eq_nil_iff_forall_not_mem]
    intro other hother
    obtain ⟨hmore, hnew⟩ := mem_newNames.1 hother
    exact hnew (List.mem_append.2 (h other hmore).symm)
  rw [newNames_append, hnone, List.append_nil]

theorem newNames_append_of_loaded (h : ∀ other ∈ names, other ∈ known) (more : List String) :
    newNames known (names ++ more) = newNames known more := by
  induction names with
  | nil => rfl
  | cons name rest ih =>
    rw [List.forall_mem_cons] at h
    rw [List.cons_append, newNames_of_mem h.1, ih h.2]

/-- Lists with the same new names still have the same when both go on alike. -/
theorem newNames_append_congr {names' : List String}
    (h : newNames known names = newNames known names') (more : List String) :
    newNames known (names ++ more) = newNames known (names' ++ more) := by
  have hsame : ∀ other, other ∈ names ++ known ↔ other ∈ names' ++ known := by
    intro other
    have hnew : (other ∈ names ∧ other ∉ known) ↔ (other ∈ names' ∧ other ∉ known) := by
      rw [← mem_newNames, h, mem_newNames]
    rw [List.mem_append, List.mem_append]
    by_cases hother : other ∈ known
    · simp [hother]
    · simpa [hother] using hnew
  rw [newNames_append, newNames_append, h, newNames_congr hsame]

/-- Only known names stand before the first new one. -/
theorem newNames_eq_cons {later : List String} (h : newNames known names = name :: later) :
    ∃ front back, names = front ++ name :: back ∧ (∀ other ∈ front, other ∈ known) ∧
      newNames (name :: known) back = later := by
  induction names with
  | nil => cases h
  | cons first rest ih =>
    by_cases hfirst : first ∈ known
    · rw [newNames_of_mem hfirst] at h
      obtain ⟨front, back, rfl, hfront, hback⟩ := ih h
      exact ⟨first :: front, back, rfl, List.forall_mem_cons.2 ⟨hfirst, hfront⟩, hback⟩
    · rw [newNames_of_not_mem hfirst] at h
      obtain ⟨rfl, hlater⟩ := List.cons.inj h
      exact ⟨[], rest, rfl, by simp, hlater⟩

end NewNames

end TestBench
