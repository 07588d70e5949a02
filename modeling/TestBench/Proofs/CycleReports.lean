import Mathlib.Data.List.Chain
import Mathlib.Data.List.Dedup
import Mathlib.Data.List.Perm.Subperm
import TestBench.Proofs.NeededImages

/-!
The names of the visits of a pass. No name is visited twice: not inside itself,
because a name that is on the stack again ends the pass, and not later, because
it is skipped once it was compiled. So a pass visits no more units than there
are names, however often these are referred to, and what it reports as a cycle
is the way to the unit whose reference met a name of the stack again.
-/
namespace TestBench

mutual

/-- The names of a unit and of all units that it refers to, directly or not. -/
def SourceUnit.unitNames : SourceUnit → List String
  | .mk name _ references => name :: Reference.unitNamesOfAll references

def Reference.unitNamesOfAll : List Reference → List String
  | [] => []
  | r :: rest => r.unitNames ++ Reference.unitNamesOfAll rest

def Reference.unitNames : Reference → List String
  | .unit u => u.unitNames
  | .binary _ => []

end

/-- The fault is in the contents of a file or in the code of a unit, and not in the names by which
units refer to each other. -/
def MaterializeFault.OfContent : MaterializeFault → Prop
  | .compile .. | .unreadable .. | .badImage .. | .misnamed .. | .unencodable _ => True
  | .invalidName _ | .cycle _ | .incomplete .. => False

namespace Materialize

section Names

/-- The names are different from each other, from those on the stack and from those that the pass
has images of. -/
structure Fresh (stack : List String) (p : Pass) (names : List String) : Prop where
  nodup : names.Nodup
  outside : ∀ name ∈ names, name ∉ stack
  new : ∀ name ∈ names, p.images.contains name = false

/-- What a walk leaves that has begun visits of these names. -/
structure Begins (stack names : List String) (p q : Pass) (result : Except MaterializeFault Unit) :
    Prop where
  fresh : Fresh stack p names
  kept : result = .ok () → ∀ name, p.images.contains name = true → q.images.contains name = true
  done : result = .ok () → ∀ name ∈ names, q.images.contains name = true

namespace Begins

variable {stack names later : List String} {p q r : Pass}
  {result result' : Except MaterializeFault Unit}

theorem nil (h : result = .ok () → ∀ name, p.images.contains name = true →
    q.images.contains name = true) : Begins stack [] p q result :=
  ⟨⟨List.nodup_nil, by simp, by simp⟩, h, by simp⟩

theorem append (h : Begins stack names p q (.ok ())) (h' : Begins stack later q r result) :
    Begins stack (names ++ later) p r result := by
  refine ⟨⟨?_, ?_, ?_⟩, ?_, ?_⟩
  -- The later names are new to a pass that knows the names of the visits before.
  · refine List.nodup_append.2 ⟨h.fresh.nodup, h'.fresh.nodup, ?_⟩
    rintro name hname _ hlater rfl
    have hdone := h.done rfl name hname
    rw [h'.fresh.new name hlater] at hdone
    cases hdone
  · exact List.forall_mem_append.2 ⟨h.fresh.outside, h'.fresh.outside⟩
  · refine List.forall_mem_append.2 ⟨h.fresh.new, fun name hname => ?_⟩
    rw [Bool.eq_false_iff]
    intro hold
    have hkept := h.kept rfl name hold
    rw [h'.fresh.new name hname] at hkept
    cases hkept
  · exact fun hok name hold => h'.kept hok name (h.kept rfl name hold)
  · intro hok
    exact List.forall_mem_append.2
      ⟨fun name hname => h'.kept hok name (h.done rfl name hname), h'.done hok⟩

/-- A unit is visited outside all that is visited inside it. -/
theorem enter {name : String} (h : Begins (stack ++ [name]) names p q result)
    (houtside : name ∉ stack) (hnew : p.images.contains name = false)
    (hkept : result' = .ok () → result = .ok () ∧ r.images.contains name = true ∧
      ∀ other, q.images.contains other = true → r.images.contains other = true) :
    Begins stack (name :: names) p r result' := by
  have hinside : ∀ other ∈ names, other ∉ stack ∧ other ≠ name := by
    intro other hother
    have hnot := h.fresh.outside other hother
    rw [List.mem_append, List.mem_singleton, not_or] at hnot
    exact hnot
  refine ⟨⟨?_, ?_, ?_⟩, ?_, ?_⟩
  · exact List.nodup_cons.2 ⟨fun hmem => (hinside name hmem).2 rfl, h.fresh.nodup⟩
  · exact List.forall_mem_cons.2 ⟨houtside, fun other hother => (hinside other hother).1⟩
  · exact List.forall_mem_cons.2 ⟨hnew, h.fresh.new⟩
  · intro hok other hold
    obtain ⟨hinner, -, hmore⟩ := hkept hok
    exact hmore other (h.kept hinner other hold)
  · intro hok
    obtain ⟨hinner, hself, hmore⟩ := hkept hok
    exact List.forall_mem_cons.2
      ⟨hself, fun other hother => hmore other (h.done hinner other hother)⟩

end Begins

variable {files : Files}

mutual

theorem visit_begins : ∀ (u : SourceUnit) {stack : List String} {p q : Pass}
    {result : Except MaterializeFault Unit}, Image.isValidName u.name = true → u.name ∉ stack →
      p.images.contains u.name = false → visit files u stack p = (result, q) →
        Begins stack ((visits files u stack p).map (·.unit.name)) p q result
  | .mk name sources references, stack, p, q, result, hvalid, hfresh, hnew, h => by
    have hcases := visit_cases hvalid hfresh h
    rw [visits_eq hvalid hfresh, List.map_cons]
    rcases hcases with ⟨e, r, hall, rfl, -⟩ | ⟨r, hall, ⟨e, -, rfl, -⟩ | ⟨hemit, rfl⟩⟩
    · exact (visitAll_begins references hall).enter hfresh hnew fun hok => by cases hok
    · exact (visitAll_begins references hall).enter hfresh hnew fun hok => by cases hok
    · obtain ⟨image, bytes, -, -, rfl⟩ := emit_eq_ok hemit
      refine (visitAll_begins references hall).enter hfresh hnew fun _ => ⟨rfl, ?_, ?_⟩
      · exact Tracks.contains_addImage.2 (Or.inr rfl)
      · exact fun other hother => Tracks.contains_addImage.2 (Or.inl hother)

theorem visitAll_begins : ∀ (references : List Reference) {stack : List String} {p q : Pass}
    {result : Except MaterializeFault Unit}, visitAll files references stack p = (result, q) →
      Begins stack ((visitsAll files references stack p).map (·.unit.name)) p q result
  | [], stack, p, q, result, h => by
    obtain ⟨-, rfl⟩ := Prod.mk.inj h
    exact .nil fun _ _ hold => hold
  | r :: rest, stack, p, q, result, h => by
    rw [visitAll] at h
    rw [visitsAll, List.map_append]
    cases hfirst : visitReference files r stack p with
    | mk first between =>
      rw [hfirst] at h
      have hbegins := visitReference_begins r hfirst
      cases first with
      | error e =>
        obtain ⟨rfl, rfl⟩ := Prod.mk.inj h
        rw [List.map_nil, List.append_nil]
        exact hbegins
      | ok _ => exact hbegins.append (visitAll_begins rest h)

theorem visitReference_begins : ∀ (r : Reference) {stack : List String} {p q : Pass}
    {result : Except MaterializeFault Unit}, visitReference files r stack p = (result, q) →
      Begins stack ((visitsReference files r stack p).map (·.unit.name)) p q result
  | .unit u, stack, p, q, result, h => by
    obtain ⟨hnone, rfl, -⟩ | ⟨hvalid, hfresh, hnew, hbegun, hvisit⟩ := visitReference_unit_cases h
    · rw [hnone]
      exact .nil fun _ _ hold => hold
    · rw [hbegun]
      exact visit_begins u hvalid hfresh hnew hvisit
  | .binary path, stack, p, q, result, h => by
    rw [visitsReference]
    refine .nil fun hok name hold => ?_
    subst hok
    rcases visitReference_binary_eq_ok h with ⟨-, rfl⟩ | ⟨-, hadd⟩
    · exact hold
    · obtain ⟨store, stored, image, rfl⟩ := addBinary_eq_ok hadd
      exact Tracks.contains_addImage.2 (Or.inl hold)

end

mutual

theorem visits_known : ∀ (u : SourceUnit) (stack : List String) (p : Pass),
    ∀ v ∈ visits files u stack p, v.unit.name ∈ u.unitNames
  | .mk name sources references, stack, p => by
    rw [visits, SourceUnit.unitNames, List.forall_mem_cons]
    refine ⟨List.mem_cons_self, fun v hv => List.mem_cons_of_mem name ?_⟩
    split at hv
    · cases hv
    · exact visitsAll_known references _ p v hv

theorem visitsAll_known : ∀ (references : List Reference) (stack : List String) (p : Pass),
    ∀ v ∈ visitsAll files references stack p, v.unit.name ∈ Reference.unitNamesOfAll references
  | [], _, _ => fun _ hv => by cases hv
  | r :: rest, stack, p => by
    intro v hv
    rw [Reference.unitNamesOfAll, List.mem_append]
    rw [visitsAll, List.mem_append] at hv
    refine hv.imp (visitsReference_known r stack p v) fun hv => ?_
    split at hv
    · exact visitsAll_known rest stack _ v hv
    · cases hv

theorem visitsReference_known : ∀ (r : Reference) (stack : List String) (p : Pass),
    ∀ v ∈ visitsReference files r stack p, v.unit.name ∈ r.unitNames
  | .unit u, stack, p => by
    intro v hv
    rw [visitsReference] at hv
    split at hv
    · cases hv
    · exact visits_known u stack p v hv
  | .binary _, _, _ => fun _ hv => by cases hv

end

mutual

/-- Every unit that is compiled was visited. -/
theorem compiled_subperm : ∀ (u : SourceUnit) (stack : List String) (p : Pass),
    ((compiled files u stack p).map (·.unit)).Subperm ((visits files u stack p).map (·.unit))
  | .mk name sources references, stack, p => by
    rw [compiled, visits]
    by_cases hskip : (!Image.isValidName name || stack.contains name) = true
    · rw [if_pos hskip, if_pos hskip]
      exact List.nil_subperm
    · rw [if_neg hskip, if_neg hskip, List.map_append, List.map_cons]
      have hall := compiledAll_subperm references (stack ++ [name]) p
      -- A unit is visited before what is inside it, but compiled after it.
      refine List.Subperm.trans ?_ (List.perm_append_singleton _ _).subperm
      refine hall.append ?_
      split
      · split
        · exact List.Subperm.refl _
        · exact List.nil_subperm
      · exact List.nil_subperm

theorem compiledAll_subperm : ∀ (references : List Reference) (stack : List String) (p : Pass),
    ((compiledAll files references stack p).map (·.unit)).Subperm
      ((visitsAll files references stack p).map (·.unit))
  | [], _, _ => List.nil_subperm
  | r :: rest, stack, p => by
    rw [compiledAll, visitsAll, List.map_append, List.map_append]
    refine (compiledReference_subperm r stack p).append ?_
    cases visitReference files r stack p with
    | mk result q =>
      cases result with
      | error e => exact List.nil_subperm
      | ok _ => exact compiledAll_subperm rest stack q

theorem compiledReference_subperm : ∀ (r : Reference) (stack : List String) (p : Pass),
    ((compiledReference files r stack p).map (·.unit)).Subperm
      ((visitsReference files r stack p).map (·.unit))
  | .unit u, stack, p => by
    rw [compiledReference, visitsReference]
    by_cases hdone : p.images.contains u.name = true
    · rw [if_pos hdone]
      exact List.nil_subperm
    · rw [if_neg hdone]
      split
      · next hskip =>
        have hunit : (!Image.isValidName u.name || stack.contains u.name) = true := by
          simpa [hdone] using hskip
        have hnone : compiled files u stack p = [] := by
          obtain ⟨name, sources, references⟩ := u
          rw [compiled]
          exact if_pos hunit
        rw [hnone]
        exact List.nil_subperm
      · exact compiled_subperm u stack p
  | .binary _, _, _ => List.nil_subperm

end

end Names

section Reports

/-- The first name is that of a unit that was visited, the second that of a unit it refers to. -/
def Follows (vs : List Visit) (name next : String) : Prop :=
  ∃ v ∈ vs, v.unit.name = name ∧ ∃ w, .unit w ∈ v.unit.references ∧ w.name = next

/-- The chain goes on from the stack, through units that were visited, up to a name that it has
had before. -/
def Closes (vs : List Visit) (stack : List String) (first : String) (chain : List String) : Prop :=
  ∃ inner last, chain = stack ++ inner ++ [last] ∧ (stack ++ inner).Nodup ∧
    last ∈ stack ++ inner ∧ (inner ++ [last]).head? = some first ∧
      (inner ++ [last]).IsChain (Follows vs)

theorem Follows.mono {vs more : List Visit} {name next : String} (h : Follows vs name next)
    (hsub : vs ⊆ more) : Follows more name next := by
  obtain ⟨v, hv, hnames⟩ := h
  exact ⟨v, hsub hv, hnames⟩

namespace Closes

variable {vs more : List Visit} {stack chain : List String} {first name : String}

theorem mono (h : Closes vs stack first chain) (hsub : vs ⊆ more) :
    Closes more stack first chain := by
  obtain ⟨inner, last, hchain, hnodup, hlast, hfirst, hfollows⟩ := h
  exact ⟨inner, last, hchain, hnodup, hlast, hfirst, hfollows.imp fun _ _ h => h.mono hsub⟩

theorem again (hnodup : stack.Nodup) (hname : name ∈ stack) :
    Closes vs stack name (stack ++ [name]) :=
  ⟨[], name, by simp, by simpa using hnodup, by simpa using hname, rfl, .singleton _⟩

/-- What is reported from inside a visit goes through the unit that is visited. -/
theorem enter {v : Visit} (h : Closes vs (stack ++ [v.unit.name]) first chain)
    (hfirst : ∃ w, .unit w ∈ v.unit.references ∧ w.name = first) :
    Closes (v :: vs) stack v.unit.name chain := by
  obtain ⟨inner, last, hchain, hnodup, hlast, hinner, hfollows⟩ := h
  rw [List.append_assoc, List.singleton_append] at hnodup hlast
  refine ⟨v.unit.name :: inner, last, ?_, hnodup, hlast, rfl, ?_⟩
  · rw [hchain, List.append_assoc stack, List.singleton_append]
  · refine (hfollows.imp fun _ _ h => h.mono (List.subset_cons_self v vs)).cons ?_
    intro next hnext
    obtain rfl := Option.some.inj (hinner.symm.trans hnext)
    exact ⟨v, List.mem_cons_self, rfl, hfirst⟩

end Closes

variable {files : Files} {p q : Pass} {chain : List String}

theorem readBinary_ofContent {name path : String} {bytes : Bytes} {e : MaterializeFault}
    (h : readBinary name path bytes = .error e) : e.OfContent := by
  unfold readBinary at h
  split at h
  · obtain ⟨⟩ := h
    trivial
  · split at h
    · cases h
    · obtain ⟨⟩ := h
      trivial

theorem load_ofContent {name path : String} {e : MaterializeFault}
    (h : load files name path = .error e) : e.OfContent := by
  unfold load at h
  split at h
  · obtain ⟨⟩ := h
    trivial
  · next bytes _ =>
    cases hread : readBinary name path bytes with
    | error e =>
      rw [hread] at h
      obtain rfl := Except.error.inj h
      exact readBinary_ofContent hread
    | ok image =>
      rw [hread] at h
      cases h

theorem addBinary_ofContent {name path : String} {e : MaterializeFault}
    (h : addBinary files name path p = (.error e, q)) : e.OfContent := by
  unfold addBinary at h
  split at h
  · next e store hstore =>
    obtain rfl := Except.error.inj (Prod.mk.inj h).1
    rcases Store.getOrAdd_cases hstore with ⟨_, _, hok, _⟩ | ⟨_, _, _, hok, _⟩ | ⟨_, hload, he, _⟩
    · cases hok
    · cases hok
    · obtain rfl := Except.error.inj he
      exact load_ofContent hload
  · simp only at h
    split at h
    · next e hread =>
      obtain rfl := Except.error.inj (Prod.mk.inj h).1
      exact readBinary_ofContent hread
    · cases h

theorem emit_ofContent {u : SourceUnit} {e : MaterializeFault}
    (h : emit u p = (.error e, q)) : e.OfContent := by
  unfold emit at h
  split at h
  · obtain ⟨⟩ := h
    trivial
  · split at h
    · obtain ⟨⟩ := h
      trivial
    · cases h

mutual

theorem visit_closes : ∀ (u : SourceUnit) {stack : List String} {p q : Pass},
    Image.isValidName u.name = true → u.name ∉ stack → stack.Nodup →
      visit files u stack p = (.error (.cycle chain), q) →
        Closes (visits files u stack p) stack u.name chain
  | .mk name sources references, stack, p, q, hvalid, hfresh, hnodup, h => by
    have hinside : (stack ++ [name]).Nodup :=
      List.nodup_append.2 ⟨hnodup, List.nodup_singleton _, by
        rintro other hother _ hname rfl
        exact hfresh (List.mem_singleton.1 hname ▸ hother)⟩
    rw [visits_eq hvalid hfresh]
    rcases visit_cases hvalid hfresh h with
      ⟨e, r, hall, herror, -⟩ | ⟨r, -, ⟨e, hemit, herror, -⟩ | ⟨-, hok⟩⟩
    · obtain rfl := Except.error.inj herror
      obtain ⟨w, hw, hcloses⟩ := visitAll_closes references hinside hall
      exact hcloses.enter (v := ⟨.mk name sources references, stack, p⟩) ⟨w, hw, rfl⟩
    · obtain rfl := Except.error.inj herror
      exact (emit_ofContent hemit).elim
    · cases hok

theorem visitAll_closes : ∀ (references : List Reference) {stack : List String} {p q : Pass},
    stack.Nodup → visitAll files references stack p = (.error (.cycle chain), q) →
      ∃ w, .unit w ∈ references ∧
        Closes (visitsAll files references stack p) stack w.name chain
  | [], stack, p, q, hnodup, h => by cases h
  | r :: rest, stack, p, q, hnodup, h => by
    rw [visitAll] at h
    rw [visitsAll]
    cases hfirst : visitReference files r stack p with
    | mk first between =>
      rw [hfirst] at h
      cases first with
      | error e =>
        obtain ⟨herror, -⟩ := Prod.mk.inj h
        obtain rfl := Except.error.inj herror
        obtain ⟨w, rfl, hcloses⟩ := visitReference_closes r hnodup hfirst
        exact ⟨w, List.mem_cons_self, hcloses.mono (List.subset_append_left _ _)⟩
      | ok _ =>
        obtain ⟨w, hw, hcloses⟩ := visitAll_closes rest hnodup h
        exact ⟨w, List.mem_cons_of_mem r hw, hcloses.mono (List.subset_append_right _ _)⟩

theorem visitReference_closes : ∀ (r : Reference) {stack : List String} {p q : Pass},
    stack.Nodup → visitReference files r stack p = (.error (.cycle chain), q) →
      ∃ w, r = .unit w ∧ Closes (visitsReference files r stack p) stack w.name chain
  | .unit u, stack, p, q, hnodup, h => by
    refine ⟨u, rfl, ?_⟩
    obtain ⟨-, -, herror | ⟨hstack, herror⟩ | hok⟩ | ⟨hvalid, hfresh, -, hbegun, hvisit⟩ :=
      visitReference_unit_cases h
    · cases herror
    · obtain ⟨⟩ := herror
      exact .again hnodup hstack
    · cases hok
    · rw [hbegun]
      exact visit_closes u hvalid hfresh hnodup hvisit
  | .binary path, stack, p, q, hnodup, h => by
    rw [visitReference] at h
    split at h
    · cases h
    split at h
    · cases h
    · exact (addBinary_ofContent h).elim

end

end Reports

section Passes

variable {files : Files} {store : Store} {u : SourceUnit} {q : Pass}

theorem visits_nodup (files : Files) (store : Store) (u : SourceUnit) :
    ((visits files u [] (.start store)).map (·.unit.name)).Nodup := by
  by_cases hvalid : Image.isValidName u.name = true
  · exact (visit_begins u hvalid List.not_mem_nil rfl rfl).fresh.nodup
  · rw [(visit_invalid files (Bool.eq_false_iff.2 hvalid) _).2]
    exact List.nodup_singleton _

/-- There are no more visits than names, however often the units of these are referred to. -/
theorem visits_length_le (files : Files) (store : Store) (u : SourceUnit) :
    (visits files u [] (.start store)).length ≤ u.unitNames.dedup.length := by
  have hsub : (visits files u [] (.start store)).map (·.unit.name) ⊆ u.unitNames.dedup := by
    intro name hname
    obtain ⟨v, hv, rfl⟩ := List.mem_map.1 hname
    exact List.mem_dedup.2 (visits_known u [] _ v hv)
  have hlength := ((visits_nodup files store u).subperm hsub).length_le
  rwa [List.length_map] at hlength

theorem compiledUnits_nodup (files : Files) (store : Store) (u : SourceUnit) :
    ((compiledUnits files store u).map (·.unit.name)).Nodup := by
  obtain ⟨visited, hperm, hsub⟩ := @compiled_subperm files u [] (.start store)
  have hnodup := visits_nodup files store u
  have hnames : ((visits files u [] (.start store)).map (·.unit)).map (·.name) =
      (visits files u [] (.start store)).map (·.unit.name) := List.map_map
  have hcompiled : ((compiledUnits files store u).map (·.unit)).map (·.name) =
      (compiledUnits files store u).map (·.unit.name) := List.map_map
  rw [← hnames] at hnodup
  rw [← hcompiled]
  exact (hperm.map _).nodup_iff.1 ((hsub.map _).nodup hnodup)

theorem materialize_cycle {order : Order} {chain : List String} {after : Store}
    (h : materialize order files store u = (.error (.cycle chain), after)) :
    Closes (visits files u [] (.start store)) [] u.name chain := by
  obtain ⟨q, ⟨e, hvisit, herror, -⟩ | ⟨-, ⟨_, _, herror, -⟩ | ⟨hok, -⟩⟩⟩ := materialize_cases h
  · obtain rfl := Except.error.inj herror
    by_cases hvalid : Image.isValidName u.name = true
    · exact visit_closes u hvalid List.not_mem_nil List.nodup_nil hvisit
    · obtain ⟨hinvalid, -⟩ := visit_invalid files (Bool.eq_false_iff.2 hvalid) (.start store)
      cases hvisit.symm.trans hinvalid
  · cases herror
  · cases hok

end Passes

end Materialize

end TestBench
