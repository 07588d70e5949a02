import Mathlib.Logic.Relation
import TestBench.Proofs.AlikeStores
import TestBench.Proofs.CycleReports

/-!
Passes without cycles. A pass compiles the units that a depth-first walk enters,
which are those that it meets first under their names, and each of them only
when it has images of all that the unit refers to. So what is compiled is in an
order in which nothing stands before what it refers to, and nothing that refers
to itself in the end can be put in such an order.
-/
namespace TestBench

namespace Materialize

section Chosen

/-- The units are those that the walk has entered after it had met the references in `met`. -/
structure Enters (met found : List Reference) (units : List CompiledUnit) : Prop where
  extends_met : met <+: found
  entered : ∀ v, (∃ e ∈ units, e.unit = v) ↔ Entered found v ∧ ∀ r ∈ met, r.name ≠ v.name

namespace Enters

variable {met found later : List Reference} {units more : List CompiledUnit}

theorem nil (met : List Reference) : Enters met met [] := by
  refine ⟨List.prefix_refl met, fun v => ?_⟩
  constructor
  · rintro ⟨e, he, -⟩
    cases he
  · rintro ⟨hentered, hfresh⟩
    exact absurd hentered (not_entered_of_fresh hfresh)

/-- A reference that is met and not followed. -/
theorem meets {r : Reference} (h : ∀ v, r = .unit v → ∃ s ∈ met, s.name = v.name) :
    Enters met (met ++ [r]) [] := by
  refine ⟨List.prefix_append met [r], fun v => ?_⟩
  constructor
  · rintro ⟨e, he, -⟩
    cases he
  · rintro ⟨hentered, hfresh⟩
    obtain ⟨s, hs, hname⟩ := h v (hentered.of_append_singleton hfresh)
    exact absurd hname (hfresh s hs)

theorem append (h : Enters met found units) (h' : Enters found later more) :
    Enters met later (units ++ more) := by
  refine ⟨h.extends_met.trans h'.extends_met, fun v => ?_⟩
  have hsplit : (∃ e ∈ units ++ more, e.unit = v) ↔
      (∃ e ∈ units, e.unit = v) ∨ ∃ e ∈ more, e.unit = v := by
    simp only [List.mem_append, or_and_right, exists_or]
  rw [hsplit, h.entered, h'.entered]
  constructor
  · rintro (⟨hentered, hfresh⟩ | ⟨hentered, hfresh⟩)
    · exact ⟨hentered.extend h'.extends_met, hfresh⟩
    · exact ⟨hentered, fun r hr => hfresh r (h.extends_met.subset hr)⟩
  · rintro ⟨hentered, hfresh⟩
    by_cases hnew : ∀ r ∈ found, r.name ≠ v.name
    · exact Or.inr ⟨hentered, hnew⟩
    · exact Or.inl ⟨hentered.of_extend h'.extends_met hnew, hfresh⟩

/-- A unit that is entered is compiled after all that is entered inside it. -/
theorem unit {u : SourceUnit} (hnew : ∀ s ∈ met, s.name ≠ u.name)
    (h : Enters (met ++ [.unit u]) found units) (stack : List String) (image : Image) :
    Enters met found (units ++ [⟨u, stack, image⟩]) := by
  have hfirst : Entered found u := (entered_append_singleton hnew).extend h.extends_met
  refine ⟨(List.prefix_append met _).trans h.extends_met, fun v => ?_⟩
  have hsplit : (∃ e ∈ units ++ [⟨u, stack, image⟩], e.unit = v) ↔
      (∃ e ∈ units, e.unit = v) ∨ u = v := by
    simp only [List.mem_append, List.mem_singleton, or_and_right, exists_or, exists_eq_left]
  rw [hsplit, h.entered]
  constructor
  · rintro (⟨hentered, hfresh⟩ | rfl)
    · exact ⟨hentered, fun r hr => hfresh r (List.mem_append_left _ hr)⟩
    · exact ⟨hfirst, hnew⟩
  · rintro ⟨hentered, hfresh⟩
    by_cases hname : u.name = v.name
    · exact Or.inr (hfirst.unique hentered hname)
    · refine Or.inl ⟨hentered, List.forall_mem_append.2 ⟨hfresh, ?_⟩⟩
      exact List.forall_mem_singleton.2 hname

end Enters

variable {files : Files}

mutual

theorem visit_enters : ∀ (u : SourceUnit) {stack : List String} {met : List Reference}
    {p q : Pass}, Tracks stack met p → p.images.contains u.name = false →
      visit files u stack p = (.ok (), q) → Enters met (u.meet met) (compiled files u stack p)
  | .mk name sources references, stack, met, p, q, hp, hnew, h => by
    obtain ⟨hvalid, hfresh, r, hall, hemit⟩ := visit_eq_ok h
    obtain ⟨image, bytes, hcompile, -, -⟩ := emit_eq_ok hemit
    rw [SourceUnit.meet, compiled_eq hvalid hfresh hall hcompile]
    exact (visitAll_enters references hp.enter hall).unit (hp.fresh hfresh hnew) stack image

theorem visitAll_enters : ∀ (references : List Reference) {stack : List String}
    {met : List Reference} {p q : Pass}, Tracks stack met p →
      visitAll files references stack p = (.ok (), q) →
        Enters met (SourceUnit.meetAll references met) (compiledAll files references stack p)
  | [], stack, met, p, q, hp, h => .nil met
  | r :: rest, stack, met, p, q, hp, h => by
    obtain ⟨between, hfirst, hrest⟩ := visitAll_cons_eq_ok h
    rw [SourceUnit.meetAll, compiledAll, hfirst]
    exact (visitReference_enters r hp hfirst).append
      (visitAll_enters rest (visitReference_tracks r hp hfirst) hrest)

theorem visitReference_enters : ∀ (r : Reference) {stack : List String}
    {met : List Reference} {p q : Pass}, Tracks stack met p →
      visitReference files r stack p = (.ok (), q) →
        Enters met (SourceUnit.meetReference r met) (compiledReference files r stack p)
  | .unit u, stack, met, p, q, hp, h => by
    rw [SourceUnit.meetReference, compiledReference]
    obtain ⟨hfresh, ⟨hdone, -⟩ | ⟨hnew, hvisit⟩⟩ := visitReference_unit_eq_ok h
    · have hmet := (hp.names u.name).2 (Or.inl hdone)
      rw [if_pos hdone, if_pos (by simpa using hmet)]
      exact .meets fun v hv => Reference.unit.inj hv ▸ hmet
    · have hmet := any_name_eq_false.2 (hp.fresh hfresh hnew)
      rw [if_neg (by simp [hmet]), if_neg (by simp [hnew])]
      exact visit_enters u hp hnew hvisit
  | .binary path, stack, met, p, q, hp, h => .meets fun v hv => by cases hv

end

end Chosen

section Order

/-- Every unit of the list comes after the units of the names that it refers to, except for names
that are known before. -/
def Ordered (known : String → Prop) (units : List CompiledUnit) : Prop :=
  ∀ before e later, units = before ++ e :: later →
    ∀ r ∈ e.unit.references, known r.name ∨ ∃ d ∈ before, d.unit.name = r.name

/-- A walk from `p` to `q` has compiled the units in an order, and has got no other images. -/
structure Builds (p q : Pass) (units : List CompiledUnit) : Prop where
  ordered : Ordered (fun name => p.images.contains name = true) units
  images : ∀ name, q.images.contains name = true ↔
    p.images.contains name = true ∨ ∃ e ∈ units, e.unit.name = name

theorem Ordered.append {known : String → Prop} {units more : List CompiledUnit}
    (h : Ordered known units)
    (hmore : Ordered (fun name => known name ∨ ∃ e ∈ units, e.unit.name = name) more) :
    Ordered known (units ++ more) := by
  intro before e later hsplit reference href
  rcases List.append_eq_append_iff.1 hsplit with ⟨front, rfl, hrest⟩ | ⟨back, hunits, hrest⟩
  · rcases hmore front e later hrest reference href with (hknown | ⟨d, hd, hname⟩) | ⟨d, hd, hname⟩
    · exact Or.inl hknown
    · exact Or.inr ⟨d, List.mem_append_left front hd, hname⟩
    · exact Or.inr ⟨d, List.mem_append_right units hd, hname⟩
  · cases back with
    | nil =>
      have hfirst := hmore [] e later hrest.symm reference href
      rw [hunits, List.append_nil] at hfirst
      rcases hfirst with (hknown | hbefore) | ⟨d, hd, -⟩
      · exact Or.inl hknown
      · exact Or.inr hbefore
      · cases hd
    | cons first back =>
      obtain ⟨rfl, rfl⟩ := List.cons.inj hrest
      exact h before e back hunits reference href

namespace Builds

variable {p q r : Pass} {units more : List CompiledUnit}

theorem refl (p : Pass) : Builds p p [] := by
  refine ⟨fun before e later h => ?_, by simp⟩
  cases before <;> cases h

theorem append (h : Builds p q units) (h' : Builds q r more) : Builds p r (units ++ more) := by
  refine ⟨h.ordered.append ?_, fun name => ?_⟩
  · have hordered := h'.ordered
    simp only [h.images] at hordered
    exact hordered
  · rw [h'.images, h.images, or_assoc]
    simp only [List.mem_append, or_and_right, exists_or]

/-- A unit may be compiled when there are images of all that it refers to. -/
theorem emit {u : SourceUnit} (h : Builds p q units)
    (hall : ∀ r ∈ u.references, q.images.contains r.name = true) (store : Store)
    (stored : StoredImage) (stack : List String) (image : Image) :
    Builds p ({ q with store }.addImage u.name stored image) (units ++ [⟨u, stack, image⟩]) := by
  refine h.append ⟨?_, fun name => ?_⟩
  · intro before e later hsplit reference href
    cases before with
    | nil =>
      obtain ⟨rfl, -⟩ := List.cons.inj hsplit
      exact Or.inl (hall reference href)
    | cons d before => cases before <;> cases hsplit
  · have hself : (∃ e ∈ [CompiledUnit.mk u stack image], e.unit.name = name) ↔ name = u.name := by
      simp only [List.mem_singleton, exists_eq_left]
      exact eq_comm
    rw [Tracks.contains_addImage, hself]

end Builds

variable {files : Files}

mutual

theorem visit_builds : ∀ (u : SourceUnit) {stack : List String} {p q : Pass}, u.imageNames = [] →
    visit files u stack p = (.ok (), q) →
      Builds p q (compiled files u stack p) ∧ q.images.contains u.name = true
  | .mk name sources references, stack, p, q, hunits, h => by
    obtain ⟨hvalid, hfresh, r, hall, hemit⟩ := visit_eq_ok h
    obtain ⟨image, bytes, hcompile, -, rfl⟩ := emit_eq_ok hemit
    obtain ⟨hbuilds, hreferences⟩ := visitAll_builds references hunits hall
    rw [compiled_eq hvalid hfresh hall hcompile]
    exact ⟨hbuilds.emit (u := .mk name sources references) hreferences _ _ stack image,
      Tracks.contains_addImage.2 (Or.inr rfl)⟩

theorem visitAll_builds : ∀ (references : List Reference) {stack : List String} {p q : Pass},
    Reference.imageNamesOfAll references = [] → visitAll files references stack p = (.ok (), q) →
      Builds p q (compiledAll files references stack p) ∧
        ∀ r ∈ references, q.images.contains r.name = true
  | [], stack, p, q, hunits, h => by
    obtain ⟨-, rfl⟩ := Prod.mk.inj h
    exact ⟨.refl p, by simp⟩
  | r :: rest, stack, p, q, hunits, h => by
    obtain ⟨hfirstUnits, hrestUnits⟩ := List.append_eq_nil_iff.1 hunits
    obtain ⟨between, hfirst, hrest⟩ := visitAll_cons_eq_ok h
    obtain ⟨hbuilds, hr⟩ := visitReference_builds r hfirstUnits hfirst
    obtain ⟨hlater, hreferences⟩ := visitAll_builds rest hrestUnits hrest
    rw [compiledAll, hfirst]
    refine ⟨hbuilds.append hlater, List.forall_mem_cons.2 ⟨?_, hreferences⟩⟩
    exact (hlater.images r.name).2 (Or.inl hr)

theorem visitReference_builds : ∀ (r : Reference) {stack : List String} {p q : Pass},
    r.imageNames = [] → visitReference files r stack p = (.ok (), q) →
      Builds p q (compiledReference files r stack p) ∧ q.images.contains r.name = true
  | .unit u, stack, p, q, hunits, h => by
    rw [compiledReference]
    obtain ⟨-, ⟨hdone, rfl⟩ | ⟨hnew, hvisit⟩⟩ := visitReference_unit_eq_ok h
    · rw [if_pos hdone]
      exact ⟨.refl q, hdone⟩
    · rw [if_neg (by simp [hnew])]
      exact visit_builds u hunits hvisit
  | .binary path, stack, p, q, hunits, h => by cases hunits

end

end Order

section Acyclic

/-- A unit that the walk enters refers to the name of another one that it enters. -/
def Uses (u v w : SourceUnit) : Prop :=
  Entered u.walk v ∧ Entered u.walk w ∧ ∃ r ∈ v.references, r.name = w.name

variable {u : SourceUnit} {units : List CompiledUnit}

/-- In a list where every unit comes after what it refers to, it comes after all that this refers
to. -/
theorem before_of_uses (hnodup : (units.map (·.unit.name)).Nodup)
    (hordered : ∀ before e later, units = before ++ e :: later →
      ∀ r ∈ e.unit.references, ∃ d ∈ before, d.unit.name = r.name)
    (hentered : ∀ v, Entered u.walk v → ∃ e ∈ units, e.unit = v) {v w : SourceUnit}
    (huses : Relation.TransGen (Uses u) v w) {before later : List CompiledUnit} {e : CompiledUnit}
    (hunits : units = before ++ e :: later) (he : e.unit = v) : ∃ d ∈ before, d.unit = w := by
  -- References go by name, and only one unit of the list has the name.
  have hstep : ∀ {v w : SourceUnit}, Uses u v w → ∀ before e later,
      units = before ++ e :: later → e.unit = v → ∃ d ∈ before, d.unit = w := by
    rintro v w ⟨-, hw, r, hr, hname⟩ before e later hunits rfl
    obtain ⟨d, hd, hdname⟩ := hordered before e later hunits r hr
    obtain ⟨other, hother, rfl⟩ := hentered w hw
    have hmem : d ∈ units := hunits ▸ List.mem_append_left _ hd
    obtain rfl := List.inj_on_of_nodup_map hnodup hmem hother (hdname.trans hname)
    exact ⟨d, hd, rfl⟩
  induction huses with
  | single hvw => exact hstep hvw before e later hunits he
  | tail _ hwx ih =>
    obtain ⟨d, hd, hdw⟩ := ih
    obtain ⟨front, back, rfl⟩ := List.append_of_mem hd
    rw [List.append_assoc, List.cons_append] at hunits
    obtain ⟨c, hc, hcx⟩ := hstep hwx front d _ hunits hdw
    exact ⟨c, List.mem_append_left _ hc, hcx⟩

theorem acyclic_of_ordered (hnodup : (units.map (·.unit.name)).Nodup)
    (hordered : ∀ before e later, units = before ++ e :: later →
      ∀ r ∈ e.unit.references, ∃ d ∈ before, d.unit.name = r.name)
    (hentered : ∀ v, Entered u.walk v → ∃ e ∈ units, e.unit = v) (v : SourceUnit) :
    ¬ Relation.TransGen (Uses u) v v := by
  intro huses
  have hv : Entered u.walk v := by
    obtain ⟨w, hvw, -⟩ := Relation.TransGen.head'_iff.1 huses
    exact hvw.1
  obtain ⟨e, he, rfl⟩ := hentered v hv
  obtain ⟨before, later, hunits⟩ := List.append_of_mem he
  obtain ⟨d, hd, hsame⟩ := before_of_uses hnodup hordered hentered huses hunits rfl
  rw [hunits, List.map_append, List.map_cons] at hnodup
  have hapart := (List.nodup_append.1 hnodup).2.2
  exact hapart _ (List.mem_map_of_mem hd) _ List.mem_cons_self (congrArg SourceUnit.name hsame)

end Acyclic

end Materialize

open Materialize (visits compiledUnits Follows Uses) in
/-- A reported cycle is a way along references back to a name on it. A closure of units has none:
what a unit refers to is compiled before it, and only once. -/
theorem materialize_cycles (order : Materialize.Order) (files : Files) (store : Store)
    (u : SourceUnit) :
    (∀ chain after, materialize order files store u = (.error (.cycle chain), after) →
      ∃ names last, chain = names ++ [last] ∧ chain.head? = some u.name ∧ names.Nodup ∧
        last ∈ names ∧ chain.IsChain (Follows (visits files u [] (.start store)))) ∧
    (∀ closure after, u.imageNames = [] → materialize order files store u = (.ok closure, after) →
      (∀ v, ¬ Relation.TransGen (Uses u) v v) ∧
      (∀ v, Entered u.walk v ↔ ∃ e ∈ compiledUnits files store u, e.unit = v) ∧
      (∀ name, name ∈ closure.names ↔ ∃ e ∈ compiledUnits files store u, e.unit.name = name) ∧
      ∀ before e later, compiledUnits files store u = before ++ e :: later →
        ∀ r ∈ e.unit.references, ∃ d ∈ before, d.unit.name = r.name) ∧
    ((compiledUnits files store u).map (·.unit.name)).Nodup ∧
    ((visits files u [] (.start store)).map (·.unit.name)).Nodup ∧
    (visits files u [] (.start store)).length ≤ u.unitNames.dedup.length := by
  have hcompiled := Materialize.compiledUnits_nodup files store u
  refine ⟨?_, ?_, hcompiled, Materialize.visits_nodup files store u,
    Materialize.visits_length_le files store u⟩
  · intro chain after h
    obtain ⟨names, last, rfl, hnames, hlast, hfirst, hfollows⟩ := Materialize.materialize_cycle h
    simp only [List.nil_append] at hnames hlast hfirst ⊢
    exact ⟨names, last, rfl, hfirst, hnames, hlast, hfollows⟩
  · intro closure after hunits h
    obtain ⟨q, hvisit, rfl⟩ := Materialize.materialize_eq_ok h
    have hbuilds := (Materialize.visit_builds u hunits hvisit).1
    have hentered :=
      (Materialize.visit_enters u (Materialize.Tracks.start store) rfl hvisit).entered
    have hchosen : ∀ v, Entered u.walk v ↔ ∃ e ∈ compiledUnits files store u, e.unit = v := by
      intro v
      rw [compiledUnits, hentered]
      simp [SourceUnit.walk]
    have hordered : ∀ before e later, compiledUnits files store u = before ++ e :: later →
        ∀ r ∈ e.unit.references, ∃ d ∈ before, d.unit.name = r.name := by
      intro before e later hsplit r hr
      refine (hbuilds.ordered before e later hsplit r hr).resolve_left fun hknown => ?_
      cases hknown
    have hnames : ∀ name, name ∈ q.images.keys ↔
        ∃ e ∈ compiledUnits files store u, e.unit.name = name := by
      intro name
      rw [← NameMap.contains_iff_mem_keys, hbuilds.images]
      exact or_iff_right fun hknown => by cases hknown
    exact ⟨Materialize.acyclic_of_ordered hcompiled hordered fun v => (hchosen v).1, hchosen,
      hnames, hordered⟩

def emptySource (name : String) : List SourceFile :=
  [⟨"m.tdl", "class " ++ name ++ " \x7b \x7d"⟩]

/-- Two units of one name are referred to; the second would refer back to the root, but its name
is done when it is met. -/
def sharingUnit : SourceUnit :=
  .mk "App" (emptySource "App") [
    .unit (.mk "Left" (emptySource "Left") [.unit (.mk "Base" (emptySource "Base") [])]),
    .unit (.mk "Right" (emptySource "Right") [
      .unit (.mk "Base" (emptySource "Base") [.unit (.mk "App" [] [])])])]

/-- A unit that refers back to the root by way of another one. -/
def returningUnit : SourceUnit :=
  .mk "App" (emptySource "App") [
    .unit (.mk "Lib" (emptySource "Lib") [.unit (.mk "App" (emptySource "App") [])])]

theorem materialize_cycles_sharing :
    (∃ closure after, sharingUnit.imageNames = [] ∧
      materialize .sorted .fresh .empty sharingUnit = (.ok closure, after) ∧
        ∀ v, ¬ Relation.TransGen (Materialize.Uses sharingUnit) v v) ∧
    ∃ chain after,
      materialize .sorted .fresh .empty returningUnit = (.error (.cycle chain), after) ∧
      ∃ names last, chain = names ++ [last] ∧ chain.head? = some "App" ∧ names.Nodup ∧
        last ∈ names := by
  constructor
  · have hok : (materialize .sorted .fresh .empty sharingUnit).1.isOk = true := by decide +kernel
    have hunits : sharingUnit.imageNames = [] := by decide
    cases hrun : materialize .sorted .fresh .empty sharingUnit with
    | mk result after =>
      rw [hrun] at hok
      cases result with
      | error e => cases hok
      | ok closure =>
        obtain ⟨hacyclic, -⟩ :=
          (materialize_cycles .sorted .fresh .empty sharingUnit).2.1 closure after hunits hrun
        exact ⟨closure, after, hunits, rfl, hacyclic⟩
  · have hcycle : (materialize .sorted .fresh .empty returningUnit).1.map (fun _ => ()) =
        .error (.cycle ["App", "Lib", "App"]) := by decide +kernel
    cases hrun : materialize .sorted .fresh .empty returningUnit with
    | mk result after =>
      rw [hrun] at hcycle
      cases result with
      | ok closure => cases hcycle
      | error e =>
        obtain rfl := Except.error.inj hcycle
        obtain ⟨names, last, hchain, hfirst, hnames, hlast, -⟩ :=
          (materialize_cycles .sorted .fresh .empty returningUnit).1 _ after hrun
        exact ⟨_, after, rfl, names, last, hchain, hfirst, hnames, hlast⟩

end TestBench
