import TestBench.Proofs.CycleReports

/-!
Names that a pass refuses. Names are checked as the walk comes to them, so by
then a pass may have stored images, and the units that it is inside of fail with
the one that is refused. Nothing is ever kept or removed under the refused name
itself; the units around it have no image left, and what was done before stays.
-/
namespace TestBench

namespace Materialize

section Untouched

variable {files : Files} {n : String} {p q : Pass} {result : Except MaterializeFault Unit}

theorem addBinary_other {name path : String} (hname : n ≠ name)
    (h : addBinary files name path p = (result, q)) : q.store.get? n = p.store.get? n := by
  have hstore : ∀ {made : Except MaterializeFault StoredImage} {store : Store},
      p.store.getOrAdd name (fun _ => load files name path) = (made, store) →
        NameMap.get? store n = p.store.get? n := by
    intro made store hmade
    rcases Store.getOrAdd_cases hmade with ⟨_, _, _, rfl⟩ | ⟨_, _, _, _, rfl⟩ | ⟨_, _, _, rfl⟩
    · rfl
    · exact (NameMap.get?_insert _ _ _ _).trans (if_neg hname)
    · rfl
  unfold addBinary at h
  split at h
  · next hmade =>
    obtain rfl := (Prod.mk.inj h).2
    exact hstore hmade
  · next hmade =>
    dsimp only at h
    split at h
    all_goals
      obtain rfl := (Prod.mk.inj h).2
      exact hstore hmade

theorem emit_other {u : SourceUnit} (hname : n ≠ u.name) (h : emit u p = (result, q)) :
    q.store.get? n = p.store.get? n := by
  cases result with
  | error e => rw [emit_eq_error h]
  | ok _ =>
    obtain ⟨image, bytes, -, -, rfl⟩ := emit_eq_ok h
    exact (NameMap.get?_insert _ _ _ _).trans (if_neg hname)

theorem name_ne {name : String} (hn : Image.isValidName n = false)
    (hname : Image.isValidName name = true) : n ≠ name := by
  rintro rfl
  rw [hn] at hname
  cases hname

mutual

/-- Whatever comes of a walk, nothing is kept or removed under a name that is no name of an
image. -/
theorem visit_untouched (hn : Image.isValidName n = false) : ∀ (u : SourceUnit)
    {stack : List String} {p q : Pass} {result : Except MaterializeFault Unit},
    visit files u stack p = (result, q) → q.store.get? n = p.store.get? n
  | .mk name sources references, stack, p, q, result, h => by
    by_cases hvalid : Image.isValidName name = true
    · by_cases hstack : name ∈ stack
      · rw [visit, if_neg (by simp [hvalid]), if_pos (by simpa using hstack)] at h
        rw [(Prod.mk.inj h).2]
      · have hother : n ≠ name := name_ne hn hvalid
        rcases visit_cases (u := .mk name sources references) hvalid hstack h with
          ⟨e, r, hall, -, rfl⟩ | ⟨r, hall, ⟨e, -, -, rfl⟩ | ⟨hemit, -⟩⟩
        · exact (Pass.get?_evict_other hother).trans (visitAll_untouched hn references hall)
        · exact (Pass.get?_evict_other hother).trans (visitAll_untouched hn references hall)
        · exact (emit_other hother hemit).trans (visitAll_untouched hn references hall)
    · rw [visit, if_pos (by simp [hvalid])] at h
      rw [(Prod.mk.inj h).2]

theorem visitAll_untouched (hn : Image.isValidName n = false) : ∀ (references : List Reference)
    {stack : List String} {p q : Pass} {result : Except MaterializeFault Unit},
    visitAll files references stack p = (result, q) → q.store.get? n = p.store.get? n
  | [], stack, p, q, result, h => by rw [(Prod.mk.inj h).2]
  | r :: rest, stack, p, q, result, h => by
    rw [visitAll] at h
    cases hfirst : visitReference files r stack p with
    | mk first between =>
      have hhere := visitReference_untouched hn r hfirst
      rw [hfirst] at h
      cases first with
      | error e => rwa [← (Prod.mk.inj h).2]
      | ok _ => exact (visitAll_untouched hn rest h).trans hhere

theorem visitReference_untouched (hn : Image.isValidName n = false) : ∀ (r : Reference)
    {stack : List String} {p q : Pass} {result : Except MaterializeFault Unit},
    visitReference files r stack p = (result, q) → q.store.get? n = p.store.get? n
  | .unit u, stack, p, q, result, h => by
    rcases visitReference_unit_cases h with ⟨-, rfl, -⟩ | ⟨-, -, -, -, hvisit⟩
    · rfl
    · exact visit_untouched hn u hvisit
  | .binary path, stack, p, q, result, h => by
    rw [visitReference] at h
    split at h
    · rw [(Prod.mk.inj h).2]
    · next hvalid =>
      split at h
      · rw [(Prod.mk.inj h).2]
      · exact addBinary_other (name_ne hn (by simpa using hvalid)) h

end

end Untouched

mutual

/-- The walk refuses a reference inside the units `path`, outermost first, when the pass has come to
`r`. -/
inductive UnitRefuses (files : Files) (n : String) :
    SourceUnit → List String → Pass → List String → Pass → Prop
  | intro {u : SourceUnit} {stack path : List String} {p q r : Pass}
      {before rest : List Reference} {ref : Reference} :
      Image.isValidName u.name = true → u.references = before ++ ref :: rest →
      visitAll files before (stack ++ [u.name]) p = (.ok (), q) →
      ReferenceRefuses files n ref (stack ++ [u.name]) q path r →
      UnitRefuses files n u stack p (u.name :: path) r

/-- The name of a reference is refused, or that of another reference is where it leads to. -/
inductive ReferenceRefuses (files : Files) (n : String) :
    Reference → List String → Pass → List String → Pass → Prop
  | name {ref : Reference} {stack : List String} {p : Pass} :
      ref.name = n → Image.isValidName n = false → ReferenceRefuses files n ref stack p [] p
  | inside {v : SourceUnit} {stack path : List String} {p r : Pass} :
      p.images.contains v.name = false → UnitRefuses files n v stack p path r →
      ReferenceRefuses files n (.unit v) stack p path r

end

section Refusals

variable {files : Files} {n : String} {old : Store}

mutual

theorem UnitRefuses.invalid {u : SourceUnit} {stack path : List String} {p r : Pass} :
    UnitRefuses files n u stack p path r → Image.isValidName n = false
  | .intro _ _ _ h => h.invalid

theorem ReferenceRefuses.invalid {ref : Reference} {stack path : List String} {p r : Pass} :
    ReferenceRefuses files n ref stack p path r → Image.isValidName n = false
  | .name _ h => h
  | .inside _ h => h.invalid

end

/-- What is left when the units `path` fail after the pass has come to `r`: they have no image, and
what the pass has done is kept beside the old store. -/
structure Abandons (old : Store) (path : List String) (r q : Pass) : Prop where
  images : q.images = r.images
  store : ∀ name, q.store.get? name =
    if name ∈ path then none else (r.images.get? name).or (NameMap.get? old name)

theorem Abandons.evict {path : List String} {p q r : Pass} {name : String}
    (h : Abandons old path r q) (hp : p.Covers old) (hnew : p.images.get? name = none) :
    Abandons old (name :: path) r (q.evict name (observed p q name)) := by
  have hstale : p.store.get? name = NameMap.get? old name := by rw [hp, hnew, Option.none_or]
  refine ⟨h.images, fun other => ?_⟩
  by_cases hother : other = name
  · subst hother
    rw [if_pos List.mem_cons_self]
    -- Under the name there is nothing any more, or the image of the pass, or else the old one.
    refine Pass.get?_evict_self fun stored hstored => ?_
    rw [h.store] at hstored
    split at hstored
    · cases hstored
    · rw [observed, hstale, h.images]
      rcases Option.or_eq_some_iff.1 hstored with himage | ⟨-, hold⟩
      · rw [himage]
        exact List.mem_append_right _ (List.mem_singleton_self _)
      · rw [hold]
        exact List.mem_append_left _ (List.mem_singleton_self _)
  · rw [Pass.get?_evict_other hother, h.store]
    simp only [List.mem_cons, hother, false_or]

theorem Abandons.unchanged_iff {path : List String} {q r : Pass} (h : Abandons old path r q) :
    (∀ name, q.store.get? name = NameMap.get? old name) ↔
      (∀ name ∈ path, NameMap.get? old name = none) ∧
      ∀ name stored, name ∉ path → r.images.get? name = some stored →
        NameMap.get? old name = some stored := by
  constructor
  · intro hsame
    refine ⟨fun name hname => ?_, fun name stored hname hstored => ?_⟩
    · rw [← hsame, h.store, if_pos hname]
    · rw [← hsame, h.store, if_neg hname, hstored, Option.some_or]
  · rintro ⟨hpath, himages⟩ name
    rw [h.store]
    split
    · next hname => exact (hpath name hname).symm
    · next hname =>
      cases hstored : r.images.get? name with
      | none => exact Option.none_or
      | some stored => exact (himages name stored hname hstored).symm

mutual

theorem visit_refused : ∀ (u : SourceUnit) {stack : List String} {p q : Pass}, p.Covers old →
    Image.isValidName u.name = true → u.name ∉ stack → p.images.contains u.name = false →
      visit files u stack p = (.error (.invalidName n), q) →
        ∃ path r, UnitRefuses files n u stack p path r ∧ Abandons old path r q
  | .mk name sources references, stack, p, q, hp, hvalid, hfresh, hnew, h => by
    rcases visit_cases hvalid hfresh h with
      ⟨e, m, hall, herror, rfl⟩ | ⟨m, -, ⟨e, hemit, herror, -⟩ | ⟨-, hok⟩⟩
    · obtain rfl := Except.error.inj herror
      obtain ⟨before, ref, rest, m', path, r, hreferences, hbefore, hrefuses, habandons⟩ :=
        visitAll_refused references hp hall
      exact ⟨name :: path, r,
        .intro (u := .mk name sources references) hvalid hreferences hbefore hrefuses,
        habandons.evict hp (NameMap.contains_eq_false.1 hnew)⟩
    · obtain rfl := Except.error.inj herror
      exact (emit_ofContent hemit).elim
    · cases hok

theorem visitAll_refused : ∀ (references : List Reference) {stack : List String} {p q : Pass},
    p.Covers old → visitAll files references stack p = (.error (.invalidName n), q) →
      ∃ before ref rest m path r, references = before ++ ref :: rest ∧
        visitAll files before stack p = (.ok (), m) ∧
        ReferenceRefuses files n ref stack m path r ∧ Abandons old path r q
  | [], stack, p, q, hp, h => by cases h
  | first :: more, stack, p, q, hp, h => by
    rw [visitAll] at h
    cases hfirst : visitReference files first stack p with
    | mk result between =>
      rw [hfirst] at h
      cases result with
      | error e =>
        obtain ⟨herror, rfl⟩ := Prod.mk.inj h
        obtain rfl := Except.error.inj herror
        obtain ⟨path, r, hrefuses, habandons⟩ := visitReference_refused first hp hfirst
        exact ⟨[], first, more, p, path, r, rfl, rfl, hrefuses, habandons⟩
      | ok _ =>
        obtain ⟨hsettled, hcomplete⟩ := visitReference_settles first hp hfirst
        obtain ⟨before, ref, rest, m, path, r, rfl, hbefore, hrefuses, habandons⟩ :=
          visitAll_refused more (hsettled.covers (hcomplete rfl)) h
        refine ⟨first :: before, ref, rest, m, path, r, rfl, ?_, hrefuses, habandons⟩
        rw [visitAll, hfirst]
        exact hbefore

theorem visitReference_refused : ∀ (ref : Reference) {stack : List String} {p q : Pass},
    p.Covers old → visitReference files ref stack p = (.error (.invalidName n), q) →
      ∃ path r, ReferenceRefuses files n ref stack p path r ∧ Abandons old path r q
  | .unit u, stack, p, q, hp, h => by
    rw [visitReference] at h
    split at h
    · next hinvalid =>
      obtain ⟨herror, rfl⟩ := Prod.mk.inj h
      obtain ⟨⟩ := Except.error.inj herror
      exact ⟨[], p, .name rfl (by simpa using hinvalid), rfl, hp⟩
    next hvalid =>
    split at h
    · cases h
    next hstack =>
    split at h
    · cases h
    next hdone =>
    have hnew : p.images.contains u.name = false := Bool.eq_false_iff.2 hdone
    obtain ⟨path, r, hrefuses, habandons⟩ :=
      visit_refused u hp (by simpa using hvalid) (by simpa using hstack) hnew h
    exact ⟨path, r, .inside hnew hrefuses, habandons⟩
  | .binary path, stack, p, q, hp, h => by
    rw [visitReference] at h
    split at h
    · next hinvalid =>
      obtain ⟨herror, rfl⟩ := Prod.mk.inj h
      obtain ⟨⟩ := Except.error.inj herror
      exact ⟨[], p, .name rfl (by simpa using hinvalid), rfl, hp⟩
    split at h
    · cases h
    · exact (addBinary_ofContent h).elim

end

end Refusals

end Materialize

open Materialize (UnitRefuses)

/-- A refused name is neither kept nor removed. The units around the reference have no images
afterwards, and any other name has the image that the pass had for it, if any. -/
theorem materialize_refused {order : Materialize.Order} {files : Files} {store after : Store}
    {u : SourceUnit} {n : String}
    (h : materialize order files store u = (.error (.invalidName n), after)) :
    Image.isValidName n = false ∧ NameMap.get? after n = NameMap.get? store n ∧
    (u.name = n ∧ (∀ name, NameMap.get? after name = NameMap.get? store name) ∨
      ∃ path r, UnitRefuses files n u [] (.start store) path r ∧
        (∀ name, NameMap.get? after name =
          if name ∈ path then none else (r.images.get? name).or (NameMap.get? store name)) ∧
        ((∀ name, NameMap.get? after name = NameMap.get? store name) ↔
          (∀ name ∈ path, NameMap.get? store name = none) ∧
          ∀ name stored, name ∉ path → r.images.get? name = some stored →
            NameMap.get? store name = some stored)) := by
  obtain ⟨q, ⟨e, hvisit, herror, rfl⟩ | ⟨-, ⟨_, _, herror, -⟩ | ⟨hok, -⟩⟩⟩ :=
    Materialize.materialize_cases h
  · obtain rfl := Except.error.inj herror
    by_cases hvalid : Image.isValidName u.name = true
    · obtain ⟨path, r, hrefuses, habandons⟩ := Materialize.visit_refused u
        (Materialize.Pass.covers_start store) hvalid List.not_mem_nil rfl hvisit
      have hn := hrefuses.invalid
      refine ⟨hn, Materialize.visit_untouched hn u hvisit, Or.inr ⟨path, r, hrefuses,
        habandons.store, habandons.unchanged_iff⟩⟩
    · obtain ⟨hroot, -⟩ :=
        Materialize.visit_invalid files (Bool.eq_false_iff.2 hvalid) (.start store)
      obtain ⟨herror, rfl⟩ := Prod.mk.inj (hroot.symm.trans hvisit)
      obtain ⟨⟩ := Except.error.inj herror
      exact ⟨Bool.eq_false_iff.2 hvalid, rfl, Or.inl ⟨rfl, fun _ => rfl⟩⟩
  · cases herror
  · cases hok

/-- A unit with a good reference and then one whose name leads out of its directory. -/
def strayingUnit : SourceUnit :=
  .mk "Page" [⟨"p.tdl", "class Page \x7b \x7d"⟩]
    [.unit inkUnit, .unit (.mk "../Pen" [⟨"n.tdl", "class Pen \x7b \x7d"⟩] [])]

def olderPageStore : Store := Store.empty.add ⟨"Page", [1], "older"⟩

theorem strayingUnit_refused : ∃ after,
    materialize .sorted .fresh olderPageStore strayingUnit =
      (.error (.invalidName "../Pen"), after) ∧
      NameMap.get? after "Page" = none := by
  have hfails : (materialize .sorted .fresh olderPageStore strayingUnit).1.map (fun _ => ()) =
      .error (.invalidName "../Pen") := by decide +kernel
  have hgone :
      NameMap.get? (materialize .sorted .fresh olderPageStore strayingUnit).2 "Page" = none := by
    decide +kernel
  cases hrun : materialize .sorted .fresh olderPageStore strayingUnit with
  | mk result after =>
    rw [hrun] at hfails hgone
    cases result with
    | ok closure => cases hfails
    | error e =>
      obtain ⟨⟩ := Except.error.inj hfails
      exact ⟨after, rfl, hgone⟩

theorem materialize_refused_straying : ∃ after,
    materialize .sorted .fresh olderPageStore strayingUnit =
      (.error (.invalidName "../Pen"), after) ∧
      NameMap.get? after "../Pen" = NameMap.get? olderPageStore "../Pen" ∧
      ∃ path r, UnitRefuses .fresh "../Pen" strayingUnit [] (.start olderPageStore) path r ∧
        ∀ name, NameMap.get? after name =
          if name ∈ path then none
          else (r.images.get? name).or (NameMap.get? olderPageStore name) := by
  obtain ⟨after, hrun, -⟩ := strayingUnit_refused
  obtain ⟨-, hself, ⟨hroot, -⟩ | ⟨path, r, hrefuses, hafter, -⟩⟩ := materialize_refused hrun
  · exact absurd hroot (by decide)
  · exact ⟨after, hrun, hself, path, r, hrefuses, hafter⟩

/-- A refused name does not leave the store as it was: the image of the root goes. -/
theorem refusal_changes_store : ¬ ∀ (order : Materialize.Order) (files : Files)
    (store after : Store) (u : SourceUnit) (n : String),
      materialize order files store u = (.error (.invalidName n), after) →
        ∀ name, NameMap.get? after name = NameMap.get? store name := by
  intro hunchanged
  obtain ⟨after, hrun, hgone⟩ := strayingUnit_refused
  have hsame := hunchanged _ _ _ _ _ _ hrun "Page"
  rw [hgone] at hsame
  cases hsame

end TestBench
