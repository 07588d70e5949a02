import TestBench.Files.Basic

/-!
What is at a location after a change of the tree. Putting an entry into a
directory that is there changes the tree at that one location; removing one
leaves nothing at its location and below, and everything elsewhere.
-/
namespace TestBench

namespace FileTree

variable {t : FileTree} {e : FileEntry}

/-- What is at a location. -/
def at? (t : FileTree) (place : Location) : Option FileEntry := (t.find? place).map entry

theorem at?_nil (t : FileTree) : t.at? [] = some t.entry := rfl

theorem at?_cons (t : FileTree) (name : String) (rest : Location) :
    t.at? (name :: rest) = (t.child? name).bind (·.at? rest) := by
  simp only [at?, find?, Option.map_bind]
  rfl

theorem find?_concat (t : FileTree) (above : Location) (name : String) :
    t.find? (above ++ [name]) = (t.find? above).bind (·.child? name) := by
  induction above generalizing t with
  | nil =>
    rw [List.nil_append, find?, find?, Option.bind_some]
    cases t.child? name with
    | none => rfl
    | some c => rfl
  | cons first rest ih =>
    rw [List.cons_append, find?, find?, Option.bind_assoc]
    exact congrArg (Option.bind _) (funext ih)

theorem at?_append (t : FileTree) (above below : Location) :
    t.at? (above ++ below) = (t.find? above).bind (·.at? below) := by
  induction above generalizing t with
  | nil => rfl
  | cons name rest ih =>
    rw [List.cons_append, at?_cons, find?, Option.bind_assoc]
    exact congrArg (Option.bind _) (funext ih)

theorem at?_eq_none {place : Location} : t.at? place = none ↔ t.find? place = none :=
  Option.map_eq_none_iff

theorem at?_above {above below : Location} (h : t.at? (above ++ below) ≠ none) :
    t.at? above ≠ none := by
  rw [at?_append] at h
  intro habove
  rw [at?_eq_none.1 habove] at h
  exact h rfl

theorem at?_below {above below : Location} (h : t.at? above = none) :
    t.at? (above ++ below) = none := by
  rw [at?_append, at?_eq_none.1 h]
  rfl

theorem child?_change (name other : String) (f : FileTree → FileTree)
    (ts : List (String × FileTree)) :
    child? other (node e (change name f ts)) = if other = name then
      some (f ((child? name (node e ts)).getD empty)) else child? other (node e ts) := by
  simp only [child?, inside]
  induction ts with
  | nil =>
    by_cases heq : other = name
    · simp [change, heq]
    · simp [change, heq, Ne.symm heq]
  | cons first rest ih =>
    rw [change]
    split
    · next hfirst =>
      by_cases heq : other = name
      · simp [heq, hfirst]
      · have hne : first.1 ≠ other := fun h => heq (h.symm.trans hfirst)
        simp [heq, Ne.symm heq, hne]
    · next hfirst =>
      by_cases hother : first.1 = other
      · have hne : other ≠ name := fun h => hfirst (hother.trans h)
        simp [hother, hne]
      · have hskip : ∀ more, (first :: more).find? (·.1 == other) = more.find? (·.1 == other) :=
          fun more => List.find?_cons_of_neg (by simpa using hother)
        have hlater : (first :: rest).find? (·.1 == name) = rest.find? (·.1 == name) :=
          List.find?_cons_of_neg (by simpa using hfirst)
        rw [hskip, hskip, hlater, ih]

/-- An entry is put where there was one or into something that is there. -/
theorem at?_put {above : Location} {name : String} (h : t.at? above ≠ none) (place : Location) :
    (put e (above ++ [name]) t).at? place =
      if place = above ++ [name] then some e else t.at? place := by
  induction above generalizing t place with
  | nil =>
    cases place with
    | nil => rfl
    | cons first rest =>
      rw [List.nil_append, put, at?_cons, child?_change, at?_cons]
      by_cases hfirst : first = name
      · subst hfirst
        cases rest with
        | nil => simp [at?_nil, put, entry]
        | cons next more =>
          have hchild : child? first (node t.entry t.inside) = t.child? first := rfl
          rw [if_pos rfl, hchild, Option.bind_some, if_neg (by simp)]
          cases t.child? first with
          | none => rfl
          | some c => rfl
      · simp [hfirst]
        rfl
  | cons dir rest ih =>
    rw [at?_cons] at h
    cases place with
    | nil => rfl
    | cons first more =>
      rw [List.cons_append, put, at?_cons, child?_change, at?_cons]
      by_cases hfirst : first = dir
      · subst hfirst
        cases hchild : t.child? first with
        | none =>
          rw [hchild] at h
          exact absurd rfl h
        | some c =>
          rw [hchild] at h
          have hc : child? first (node t.entry t.inside) = some c := hchild
          simp only [if_pos, hc, Option.getD_some, Option.bind_some, List.cons.injEq, true_and]
          exact ih h more
      · simp [hfirst]
        rfl

theorem child?_filter (name other : String) (ts : List (String × FileTree)) :
    child? other (node e (ts.filter (·.1 != name))) =
      if other = name then none else child? other (node e ts) := by
  simp only [child?, inside, List.find?_filter]
  split
  · next heq =>
    rw [Option.map_eq_none_iff, List.find?_eq_none]
    intro x _
    simp [heq]
  · next hne =>
    congr 2
    funext x
    by_cases hx : x.1 = other
    · simp [hx, hne]
    · simp [hx]

theorem child?_map (name other : String) (f : FileTree → FileTree)
    (ts : List (String × FileTree)) :
    child? other (node e (ts.map fun (n, below) => (n, if n = name then f below else below))) =
      (child? other (node e ts)).map fun below => if other = name then f below else below := by
  simp only [child?, inside, List.find?_map, Option.map_map]
  have hsame : ((fun x : String × FileTree => x.1 == other) ∘ fun x : String × FileTree =>
      (x.1, if x.1 = name then f x.2 else x.2)) = fun x => x.1 == other := rfl
  rw [hsame]
  cases hfound : ts.find? (·.1 == other) with
  | none => rfl
  | some x =>
    have hx : x.1 = other := by simpa using List.find?_some hfound
    simp [hx]

/-- With an entry goes all that is below it. -/
theorem at?_remove {gone : Location} (h : gone ≠ []) (place : Location) :
    (remove gone t).at? place = if gone <+: place then none else t.at? place := by
  induction gone generalizing t place with
  | nil => exact absurd rfl h
  | cons name rest ih =>
    cases place with
    | nil =>
      rw [if_neg (by simp)]
      cases rest with
      | nil => rfl
      | cons next more => rfl
    | cons first below =>
      rw [at?_cons, at?_cons]
      cases rest with
      | nil =>
        rw [remove, child?_filter]
        by_cases hfirst : first = name
        · simp [hfirst]
        · have hnot : ¬ [name] <+: first :: below := by
            rw [List.cons_prefix_cons]
            exact fun hsame => hfirst hsame.1.symm
          rw [if_neg hfirst, if_neg hnot]
          rfl
      | cons next more =>
        rw [remove, child?_map]
        have hc : child? first (node t.entry t.inside) = t.child? first := rfl
        rw [hc]
        by_cases hfirst : first = name
        · subst hfirst
          cases t.child? first with
          | none => simp
          | some c =>
            simp only [Option.map_some, Option.bind_some, if_true,
              ih (List.cons_ne_nil next more), List.cons_prefix_cons, true_and]
        · have hnot : ¬ name :: next :: more <+: first :: below := by
            rw [List.cons_prefix_cons]
            exact fun hsame => hfirst hsame.1.symm
          rw [if_neg hnot]
          simp [hfirst]

/-- A new entry comes with directories above it where there was nothing. -/
theorem at?_put_cases {place q : Location} {x : FileEntry} (h : (put e place t).at? q = some x) :
    x = e ∨ t.at? q = some x ∨ x = empty.entry := by
  induction place generalizing t q with
  | nil =>
    cases q with
    | nil => exact Or.inl (Option.some.inj h).symm
    | cons first more => exact Or.inr (Or.inl h)
  | cons name rest ih =>
    cases q with
    | nil => exact Or.inr (Or.inl h)
    | cons first more =>
      rw [put, at?_cons, child?_change] at h
      rw [at?_cons]
      split at h
      · next hfirst =>
        subst hfirst
        have hc : child? first (node t.entry t.inside) = t.child? first := rfl
        rw [hc, Option.bind_some] at h
        rcases ih h with hx | hx | hx
        · exact Or.inl hx
        · cases hchild : t.child? first with
          | none =>
            rw [hchild] at hx
            refine Or.inr (Or.inr ?_)
            cases more with
            | nil => exact (Option.some.inj hx).symm
            | cons next below => cases hx
          | some c =>
            rw [hchild] at hx
            exact Or.inr (Or.inl hx)
        · exact Or.inr (Or.inr hx)
      · exact Or.inr (Or.inl h)

/-- A tree with more in it, but with no further links. -/
def Grown (t t' : FileTree) : Prop :=
  ∀ place, t'.at? place = t.at? place ∨
    t.at? place = none ∧ ∃ e, t'.at? place = some e ∧ e.target? = none

namespace Grown

variable {t t' : FileTree}

theorem at? {place : Location} {e : FileEntry} (h : Grown t t') (hplace : t.at? place = some e) :
    t'.at? place = some e := by
  rcases h place with hsame | ⟨hnone, -⟩
  · rw [hsame, hplace]
  · rw [hplace] at hnone
    cases hnone

theorem target? (h : Grown t t') (place : Location) :
    (t'.at? place).bind FileEntry.target? = (t.at? place).bind FileEntry.target? := by
  rcases h place with hsame | ⟨hnone, e, hsome, htarget⟩
  · rw [hsame]
  · rw [hnone, hsome]
    exact htarget

theorem of_at?_eq (h : ∀ place, t'.at? place = t.at? place) : Grown t t' :=
  fun place => Or.inl (h place)

end Grown

end FileTree

end TestBench
