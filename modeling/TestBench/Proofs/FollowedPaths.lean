import Mathlib.Data.List.Induction
import TestBench.Proofs.FileTrees
import TestBench.Proofs.PrintedLines

/-!
How a path is followed. Each piece of it either leads to another place or to a
link, which is followed in its stead. This depends on nothing but what is at the
places on the way, so a path that leads somewhere still leads there after
something has been added that is no link; and what is below a directory is
reached through every path that leads to the directory.
-/
namespace TestBench.Files.Trail

section Places

variable (root : FileTree)

theorem along_append (place : Location) (name : String) :
    along root (place ++ [name]) = enter root (along root place) name := by
  simp [along]

theorem tree?_along (place : Location) : tree? root (along root place) = root.find? place := by
  induction place using List.reverseRecOn with
  | nil => rfl
  | append_singleton above name ih =>
    rw [along_append, FileTree.find?_concat, ← ih]
    rfl

theorem place_along (place : Location) : (along root place).place = place := by
  induction place using List.reverseRecOn with
  | nil => rfl
  | append_singleton above name ih =>
    rw [along_append]
    simpa [enter, Trail.place] using ih

theorem tail_along (place : Location) :
    (along root place).tail = along root place.dropLast := by
  induction place using List.reverseRecOn with
  | nil => rfl
  | append_singleton above name ih =>
    rw [along_append, List.dropLast_concat]
    rfl

/-- What is at a place that has been followed to. -/
theorem entry_along (place : Location) :
    (tree? root (along root place)).map FileTree.entry = root.at? place := by
  rw [tree?_along]
  rfl

theorem target?_along (place : Location) :
    target? root (along root place) = (root.at? place).bind FileEntry.target? := by
  rw [target?, tree?_along, FileTree.at?]
  cases root.find? place with
  | none => rfl
  | some t => rfl

end Places

/-- Where a piece of a path leads. -/
inductive Move where
  | step (place : Location)
  /-- A link, and the way that it stands for. -/
  | through (link start : Location) (pieces : List (List Char))

/-- What a piece of a path means at a place. -/
def move (root : FileTree) (place : Location) (piece : List Char) : Except FileError Move :=
  match root.at? place with
  | none => .error .notFound
  | some (.directory _) =>
    if piece = [] ∨ piece = ['.'] then .ok (.step place)
    else if piece = ['.', '.'] then .ok (.step place.dropLast)
    else if nameLimit < sizeInBytes piece then .error .nameTooLong
    else match (root.at? (place ++ [String.ofList piece])).bind FileEntry.target? with
      | none => .ok (.step (place ++ [String.ofList piece]))
      | some target => .ok (.through (place ++ [String.ofList piece])
        (if Path.isAbsolute target.toList then [] else place) (Path.splitAt '/' target.toList))
  | some _ => .error .notDirectory

/-- A walk from a place by the pieces of a path, with so many links that may be followed. -/
inductive Leads (root : FileTree) (followsLast : Bool) :
    Nat → Location → List (List Char) → Location → Prop
  | stop {links : Nat} {place : Location} : Leads root followsLast links place [] place
  | step {links : Nat} {place next last : Location} {piece : List Char} {rest : List (List Char)}
      (hmove : move root place piece = .ok (.step next))
      (hrest : Leads root followsLast links next rest last) :
      Leads root followsLast links place (piece :: rest) last
  | left {links : Nat} {place link start : Location} {piece : List Char}
      {pieces : List (List Char)} (hmove : move root place piece = .ok (.through link start pieces))
      (hlast : followsLast = false) : Leads root followsLast links place [piece] link
  | through {links : Nat} {place link start last : Location} {piece : List Char}
      {pieces rest : List (List Char)}
      (hmove : move root place piece = .ok (.through link start pieces))
      (hlast : followsLast = true ∨ rest ≠ [])
      (hrest : Leads root followsLast links start (pieces ++ rest) last) :
      Leads root followsLast (links + 1) place (piece :: rest) last

section Follows

variable {root : FileTree} {followsLast : Bool}
  {goOn : Trail → List (List Char) → Except FileError Location}

theorem leads_cons_iff {links : Nat} {place last : Location} {piece : List Char}
    {rest : List (List Char)} : Leads root followsLast links place (piece :: rest) last ↔
      match move root place piece with
      | .error _ => False
      | .ok (.step next) => Leads root followsLast links next rest last
      | .ok (.through link start pieces) =>
        if rest = [] ∧ followsLast = false then link = last
        else ∃ fewer, links = fewer + 1 ∧
          Leads root followsLast fewer start (pieces ++ rest) last := by
  constructor
  · intro h
    cases h with
    | step hmove hrest => rwa [hmove]
    | left hmove hlast =>
      rw [hmove]
      exact (if_pos ⟨rfl, hlast⟩).mpr rfl
    | through hmove hlast hrest =>
      rw [hmove]
      refine (if_neg ?_).mpr ⟨_, rfl, hrest⟩
      rintro ⟨hend, hstops⟩
      rcases hlast with hfollows | hmore
      · rw [hstops] at hfollows
        cases hfollows
      · exact hmore hend
  · intro h
    cases hmove : move root place piece with
    | error e =>
      rw [hmove] at h
      exact h.elim
    | ok m =>
      rw [hmove] at h
      cases m with
      | step next => exact .step hmove h
      | through link start pieces =>
        simp only at h
        split at h
        · next hstop =>
          obtain ⟨rfl, hlast⟩ := hstop
          obtain rfl := h
          exact .left hmove hlast
        · next hgoes =>
          obtain ⟨fewer, rfl, hrest⟩ := h
          refine .through hmove ?_ hrest
          cases followsLast with
          | true => exact Or.inl rfl
          | false => exact Or.inr fun hend => hgoes ⟨hend, rfl⟩

theorem follow_cons (place : Location) (piece : List Char) (rest : List (List Char)) :
    follow root followsLast goOn (along root place) (piece :: rest) =
      match move root place piece with
      | .error e => .error e
      | .ok (.step next) => follow root followsLast goOn (along root next) rest
      | .ok (.through link start pieces) =>
        if rest = [] ∧ followsLast = false then .ok link
        else goOn (along root start) (pieces ++ rest) := by
  rw [follow, move, entry_along]
  cases root.at? place with
  | none => rfl
  | some e =>
    cases e with
    | directory a =>
      simp only
      split
      · rfl
      split
      · rw [tail_along]
      split
      · rfl
      · rw [← along_append, target?_along, place_along]
        cases (root.at? (place ++ [String.ofList piece])).bind FileEntry.target? with
        | none => rfl
        | some target =>
          simp only [Bool.and_eq_true, List.isEmpty_iff, Bool.not_eq_true']
          split
          · rfl
          · split
            · rfl
            · rfl
    | file n => rfl
    | device kind => rfl
    | program name => rfl
    | link target => rfl

theorem follow_iff {links : Nat} (hgoOn : ∀ place pieces last,
      goOn (along root place) pieces = .ok last ↔
        ∃ fewer, links = fewer + 1 ∧ Leads root followsLast fewer place pieces last)
    {place last : Location} {pieces : List (List Char)} :
    follow root followsLast goOn (along root place) pieces = .ok last ↔
      Leads root followsLast links place pieces last := by
  induction pieces generalizing place with
  | nil =>
    rw [follow, place_along, Except.ok.injEq]
    constructor
    · rintro rfl
      exact .stop
    · intro h
      cases h
      rfl
  | cons piece rest ih =>
    rw [follow_cons, leads_cons_iff]
    cases move root place piece with
    | error e =>
      refine ⟨?_, False.elim⟩
      rintro ⟨⟩
    | ok m =>
      cases m with
      | step next => exact ih
      | through link start more =>
        simp only
        split
        · rw [Except.ok.injEq]
        · exact hgoOn _ _ _

theorem walk_iff {links : Nat} {place last : Location} {pieces : List (List Char)} :
    walk root followsLast links (along root place) pieces = .ok last ↔
      Leads root followsLast links place pieces last := by
  induction links generalizing place last pieces with
  | zero =>
    refine follow_iff fun _ _ _ => ⟨?_, ?_⟩
    · rintro ⟨⟩
    · rintro ⟨fewer, hlinks, -⟩
      cases hlinks
  | succ links ih =>
    refine follow_iff fun _ _ _ => ih.trans ⟨fun h => ⟨links, rfl, h⟩, ?_⟩
    rintro ⟨fewer, hlinks, h⟩
    obtain rfl := Nat.succ.inj hlinks
    exact h

end Follows

section Moves

variable {root : FileTree} {place next : Location} {piece : List Char}

theorem move_of_directory (hplace : root.at? place = some (.directory a)) (hempty : piece ≠ [])
    (hdot : piece ≠ ['.']) (hdots : piece ≠ ['.', '.'])
    (hlink : (root.at? (place ++ [String.ofList piece])).bind FileEntry.target? = none) :
    move root place piece = if nameLimit < sizeInBytes piece then .error .nameTooLong
      else .ok (.step (place ++ [String.ofList piece])) := by
  simp [move, hplace, hempty, hdot, hdots, hlink]

theorem move_nil {a : Attributes} (hplace : root.at? place = some (.directory a)) :
    move root place [] = .ok (.step place) := by
  rw [move, hplace]
  rfl

theorem move_nil_cases {m : Move} (h : move root place [] = .ok m) : m = .step place := by
  unfold move at h
  split at h
  · cases h
  · rw [if_pos (Or.inl rfl)] at h
    exact (Except.ok.inj h).symm
  · cases h

/-- Nothing but a name leads out of what is there. -/
theorem move_new (h : move root place piece = .ok (.step next)) (hnext : root.at? next = none) :
    ∃ name a, next = place ++ [name] ∧ root.at? place = some (.directory a) := by
  unfold move at h
  split at h
  · cases h
  · next a hplace =>
    split at h
    · obtain rfl := Move.step.inj (Except.ok.inj h)
      rw [hplace] at hnext
      cases hnext
    split at h
    · obtain rfl := Move.step.inj (Except.ok.inj h)
      have hwhole : root.at? (place.dropLast ++ place.drop (place.length - 1)) ≠ none := by
        rw [List.dropLast_eq_take, List.take_append_drop, hplace]
        exact Option.some_ne_none _
      exact absurd hnext (FileTree.at?_above hwhole)
    split at h
    · cases h
    · split at h
      · obtain rfl := Move.step.inj (Except.ok.inj h)
        exact ⟨_, a, rfl, hplace⟩
      · cases h
  · cases h

theorem move_through {link start : Location} {pieces : List (List Char)}
    (h : move root place piece = .ok (.through link start pieces)) :
    root.at? link ≠ none ∧ pieces ≠ [] := by
  unfold move at h
  split at h
  · cases h
  · split at h
    · cases h
    split at h
    · cases h
    split at h
    · cases h
    · split at h
      · cases h
      · next target htarget =>
        obtain ⟨rfl, -, rfl⟩ := Move.through.inj (Except.ok.inj h)
        refine ⟨fun hnone => ?_, Path.splitAt_ne_nil _ _⟩
        rw [hnone] at htarget
        cases htarget
  · cases h

theorem move_grown {root' : FileTree} {m : Move} (hgrown : root.Grown root')
    (h : move root place piece = .ok m) : move root' place piece = .ok m := by
  unfold move at h ⊢
  cases hplace : root.at? place with
  | none =>
    rw [hplace] at h
    cases h
  | some e =>
    rw [hplace] at h
    simp only [hgrown.at? hplace, hgrown.target?]
    exact h

end Moves

namespace Leads

variable {root : FileTree} {followsLast : Bool} {links : Nat} {place last : Location}
  {pieces : List (List Char)}

theorem grown {root' : FileTree} (hgrown : root.Grown root')
    (h : Leads root followsLast links place pieces last) :
    Leads root' followsLast links place pieces last := by
  induction h with
  | stop => exact .stop
  | step hmove _ ih => exact .step (move_grown hgrown hmove) ih
  | left hmove hlast => exact .left (move_grown hgrown hmove) hlast
  | through hmove hlast _ ih => exact .through (move_grown hgrown hmove) hlast ih

/-- What a path leads to and is not there yet would be in a directory that is. -/
theorem above_of_new (h : Leads root followsLast links place pieces last)
    (hlast : root.at? last = none) (hstart : pieces ≠ []) :
    ∃ above name a, last = above ++ [name] ∧ root.at? above = some (.directory a) := by
  induction h with
  | stop => exact absurd rfl hstart
  | @step _ place next _ _ rest hmove hrest ih =>
    by_cases hend : rest = []
    · subst hend
      cases hrest
      obtain ⟨name, a, hnext, hplace⟩ := move_new hmove hlast
      exact ⟨place, name, a, hnext, hplace⟩
    · exact ih hlast hend
  | left hmove _ => exact absurd hlast (move_through hmove).1
  | through hmove _ _ ih =>
    exact ih hlast (List.append_ne_nil_of_left_ne_nil (move_through hmove).2 _)

/-- Where nothing is there is no link to be followed. -/
theorem followed (h : Leads root followsLast links place pieces last)
    (hlast : root.at? last = none) : Leads root true links place pieces last := by
  induction h with
  | stop => exact .stop
  | step hmove _ ih => exact .step hmove (ih hlast)
  | left hmove _ => exact absurd hlast (move_through hmove).1
  | through hmove _ _ ih => exact .through hmove (Or.inl rfl) (ih hlast)

theorem append {more : List (List Char)} {far : Location}
    (h : Leads root true links place pieces last)
    (hmore : ∀ links, Leads root true links last more far) :
    Leads root true links place (pieces ++ more) far := by
  induction h with
  | stop => exact hmore _
  | step hmove _ ih => exact .step hmove (ih hmore)
  | left _ hleft => cases hleft
  | through hmove _ _ ih =>
    refine .through hmove (Or.inl rfl) ?_
    rw [List.append_eq, ← List.append_assoc]
    exact ih hmore

/-- A path leads on from where its beginning leads to. -/
theorem of_append {more : List (List Char)} {far : Location}
    (h : Leads root true links place pieces last)
    (hall : Leads root true links place (pieces ++ more) far) :
    ∃ links, Leads root true links last more far := by
  induction h with
  | stop => exact ⟨_, hall⟩
  | step hmove _ ih =>
    rw [List.cons_append, leads_cons_iff, hmove] at hall
    exact ih hall
  | left _ hleft => cases hleft
  | through hmove _ _ ih =>
    rw [List.cons_append, leads_cons_iff, hmove] at hall
    simp only [Bool.true_eq_false, and_false, if_false] at hall
    obtain ⟨fewer, hlinks, hall⟩ := hall
    obtain rfl := Nat.succ.inj hlinks
    rw [← List.append_assoc] at hall
    exact ih hall

/-- A slash at the end of a path leads nowhere else. -/
theorem of_slash {first : List (List Char)}
    (h : Leads root true links place (first ++ [[]]) last) :
    Leads root true links place first last := by
  generalize hall : first ++ [[]] = pieces at h
  induction h generalizing first with
  | stop => exact absurd hall (List.append_ne_nil_of_right_ne_nil _ (List.cons_ne_nil _ _))
  | @step _ place next last piece rest hmove hrest ih =>
    cases first with
    | nil =>
      obtain ⟨rfl, rfl⟩ := List.cons.inj hall
      obtain rfl := Move.step.inj (move_nil_cases hmove)
      exact hrest
    | cons other more =>
      obtain ⟨rfl, rfl⟩ := List.cons.inj hall
      exact .step hmove (ih rfl)
  | left _ hleft => cases hleft
  | through hmove hlast _ ih =>
    cases first with
    | nil =>
      obtain ⟨rfl, rfl⟩ := List.cons.inj hall
      cases move_nil_cases hmove
    | cons other more =>
      obtain ⟨rfl, rfl⟩ := List.cons.inj hall
      exact .through hmove (Or.inl rfl) (ih (List.append_assoc _ _ _))

/-- On its way a path leads to where any beginning of it leads to. -/
theorem beginning {first more : List (List Char)}
    (h : Leads root true links place (first ++ more) last) :
    ∃ near, Leads root false links place first near := by
  generalize hall : first ++ more = pieces at h
  induction h generalizing first with
  | stop =>
    obtain ⟨rfl, rfl⟩ := List.append_eq_nil_iff.1 hall
    exact ⟨_, .stop⟩
  | step hmove _ ih =>
    cases first with
    | nil => exact ⟨_, .stop⟩
    | cons piece rest =>
      obtain ⟨rfl, rfl⟩ := List.cons.inj hall
      obtain ⟨near, hnear⟩ := ih rfl
      exact ⟨near, .step hmove hnear⟩
  | left _ hleft => cases hleft
  | through hmove _ _ ih =>
    cases first with
    | nil => exact ⟨_, .stop⟩
    | cons piece rest =>
      obtain ⟨rfl, rfl⟩ := List.cons.inj hall
      by_cases hend : rest = []
      · subst hend
        exact ⟨_, .left hmove rfl⟩
      · obtain ⟨near, hnear⟩ := ih (List.append_assoc _ _ _)
        exact ⟨near, .through hmove (Or.inr hend) hnear⟩

/-- A name leads to what a directory has under it, unless that is a link. -/
theorem name {a : Attributes} {piece : List Char}
    (h : Leads root followsLast links place [piece] last)
    (hplace : root.at? place = some (.directory a)) (hempty : piece ≠ []) (hdot : piece ≠ ['.'])
    (hdots : piece ≠ ['.', '.'])
    (hlink : (root.at? (place ++ [String.ofList piece])).bind FileEntry.target? = none) :
    last = place ++ [String.ofList piece] := by
  rw [leads_cons_iff, move_of_directory hplace hempty hdot hdots hlink] at h
  split at h
  · exact h.elim
  · next hstep =>
    split at hstep
    · cases hstep
    · obtain rfl := Move.step.inj (Except.ok.inj hstep)
      cases h
      rfl
  · next hthrough => split at hthrough <;> cases hthrough

/-- No piece of a path leads on from where nothing is. -/
theorem nil_of_at?_eq_none (h : Leads root followsLast links place pieces last)
    (hplace : root.at? place = none) : pieces = [] := by
  cases pieces with
  | nil => rfl
  | cons piece rest =>
    rw [leads_cons_iff, move, hplace] at h
    exact h.elim

/-- Slashes at the end of a path to a directory mean nothing. -/
theorem stay {a : Attributes} (hlast : root.at? last = some (.directory a)) (n links : Nat) :
    Leads root followsLast links last (List.replicate n []) last := by
  induction n with
  | zero => exact .stop
  | succ n ih => exact .step (move_nil hlast) ih

end Leads

end TestBench.Files.Trail
