import TestBench.Proofs.ExternalVerdicts
import TestBench.Proofs.PassStates

/-!
What a pass takes from the store. It looks a name up for a binary reference
only, and only before it has an image of that name itself, so two stores that
have the same under the names of binary references lead to the same pass. What
else they hold decides about evictions, which come after a pass has failed. So
a store that is kept from call to call changes no verdict on units without
binary references.
-/
namespace TestBench

mutual

/-- The names of all binary references of a unit and of the units that it refers to. -/
def SourceUnit.imageNames : SourceUnit → List String
  | .mk _ _ references => Reference.imageNamesOfAll references

def Reference.imageNamesOfAll : List Reference → List String
  | [] => []
  | r :: rest => r.imageNames ++ Reference.imageNamesOfAll rest

def Reference.imageNames : Reference → List String
  | .unit u => u.imageNames
  | .binary path => [binaryName path]

end

/-- The stores have the same under these names. -/
def Store.AgreeOn (names : List String) (s t : Store) : Prop :=
  ∀ name ∈ names, NameMap.get? s name = NameMap.get? t name

instance (names : List String) (s t : Store) : Decidable (s.AgreeOn names t) :=
  inferInstanceAs (Decidable (∀ name ∈ names, _))

theorem Store.AgreeOn.of_nil {names : List String} (h : names = []) (s t : Store) :
    s.AgreeOn names t := by
  rw [h]
  exact List.forall_mem_nil _

namespace Materialize

/-- The passes have the same images, and stores with the same under the names that are still to be
looked up. -/
structure Alike (names : List String) (p q : Pass) : Prop where
  images : p.images = q.images
  decoded : p.decoded = q.decoded
  store : ∀ name ∈ names, p.images.get? name = none → p.store.get? name = q.store.get? name

/-- The steps fail with the same fault or succeed with passes that are alike. -/
structure SameStep (names : List String) (s t : Step) : Prop where
  result : s.1 = t.1
  pass : s.1 = .ok () → Alike names s.2 t.2

section Steps

variable {files : Files} {names : List String} {p q : Pass}

theorem SameStep.ok (h : Alike names p q) : SameStep names (.ok (), p) (.ok (), q) :=
  ⟨rfl, fun _ => h⟩

theorem SameStep.error (e : MaterializeFault) (p q : Pass) :
    SameStep names (.error e, p) (.error e, q) :=
  ⟨rfl, fun h => by cases h⟩

/-- An image that both passes get is from then on not looked up any more. -/
theorem Alike.addImage {name : String} {store store' : Store} (h : Alike names p q)
    (hp : ∀ other, other ≠ name → NameMap.get? store other = p.store.get? other)
    (hq : ∀ other, other ≠ name → NameMap.get? store' other = q.store.get? other)
    (stored : StoredImage) (image : Image) :
    Alike names ({ p with store }.addImage name stored image)
      ({ q with store := store' }.addImage name stored image) := by
  refine ⟨?_, ?_, ?_⟩
  · change p.images.insert name stored = q.images.insert name stored
    rw [h.images]
  · change p.decoded.insert name image = q.decoded.insert name image
    rw [h.decoded]
  · intro other hother hnone
    change (p.images.insert name stored).get? other = none at hnone
    change NameMap.get? store other = NameMap.get? store' other
    rw [NameMap.get?_insert] at hnone
    split at hnone
    · cases hnone
    · next hne => rw [hp other hne, hq other hne, h.store other hother hnone]

theorem readBinary_same {name path : String} {stored : StoredImage} (h : Alike names p q)
    {store store' : Store}
    (hp : ∀ other, other ≠ name → NameMap.get? store other = p.store.get? other)
    (hq : ∀ other, other ≠ name → NameMap.get? store' other = q.store.get? other) :
    SameStep names
      (match readBinary name path stored.bytes with
        | .error e => (.error e, { p with store })
        | .ok image => (.ok (), { p with store }.addImage name stored image))
      (match readBinary name path stored.bytes with
        | .error e => (.error e, { q with store := store' })
        | .ok image => (.ok (), { q with store := store' }.addImage name stored image)) := by
  cases readBinary name path stored.bytes with
  | error e => exact .error e _ _
  | ok image => exact .ok (h.addImage hp hq stored image)

/-- A binary reference is looked up where the stores agree. -/
theorem addBinary_same {name path : String} (h : Alike names p q) (hname : name ∈ names)
    (hnew : p.images.contains name = false) :
    SameStep names (addBinary files name path p) (addBinary files name path q) := by
  have hlookup := h.store name hname (NameMap.contains_eq_false.1 hnew)
  unfold addBinary Store.getOrAdd
  rw [← hlookup]
  cases p.store.get? name with
  | some stored => exact readBinary_same h (fun _ _ => rfl) fun _ _ => rfl
  | none =>
    cases load files name path with
    | error e => exact .error e _ _
    | ok stored =>
      refine readBinary_same h ?_ ?_
      all_goals
        intro other hne
        rw [NameMap.get?_insert, if_neg hne]

/-- Compiling a unit takes nothing from the store. -/
theorem emit_same (u : SourceUnit) (h : Alike names p q) :
    SameStep names (emit u p) (emit u q) := by
  have hcompile : compile u (interfaces q.decoded u.references) =
      compile u (interfaces p.decoded u.references) := by rw [h.decoded]
  unfold emit
  rw [hcompile]
  cases compile u (interfaces p.decoded u.references) with
  | error diagnostics => exact .error _ _ _
  | ok image =>
    simp only
    cases image.encode? with
    | none => exact .error _ _ _
    | some bytes =>
      refine .ok (h.addImage ?_ ?_ _ image)
      all_goals
        intro other hne
        exact (NameMap.get?_insert _ _ _ _).trans (if_neg hne)

end Steps

mutual

theorem visit_same {files : Files} {names : List String} : ∀ (u : SourceUnit)
    {stack : List String} {p q : Pass}, u.imageNames ⊆ names → Alike names p q →
      SameStep names (visit files u stack p) (visit files u stack q)
  | .mk name sources references, stack, p, q, hnames, h => by
    rw [visit, visit]
    split
    · exact .error _ _ _
    split
    · exact .error _ _ _
    have hall : SameStep names (visitAll files references (stack ++ [name]) p)
        (visitAll files references (stack ++ [name]) q) := visitAll_same references hnames h
    cases hp : visitAll files references (stack ++ [name]) p with
    | mk result r =>
      cases hq : visitAll files references (stack ++ [name]) q with
      | mk result' r' =>
        rw [hp, hq] at hall
        obtain rfl : result = result' := hall.result
        cases result with
        | error e => exact .error e _ _
        | ok _ =>
          have hemit := emit_same (.mk name sources references) (hall.pass rfl)
          simp only
          cases hp : emit (.mk name sources references) r with
          | mk emitted last =>
            cases hq : emit (.mk name sources references) r' with
            | mk emitted' last' =>
              rw [hp, hq] at hemit
              obtain rfl : emitted = emitted' := hemit.result
              cases emitted with
              | error e => exact .error e _ _
              | ok _ => exact .ok (hemit.pass rfl)

theorem visitAll_same {files : Files} {names : List String} : ∀ (references : List Reference)
    {stack : List String} {p q : Pass}, Reference.imageNamesOfAll references ⊆ names →
      Alike names p q →
      SameStep names (visitAll files references stack p) (visitAll files references stack q)
  | [], _, _, _, _, h => .ok h
  | r :: rest, stack, p, q, hnames, h => by
    obtain ⟨hfirst, hlater⟩ := List.append_subset.1 hnames
    have hreference : SameStep names (visitReference files r stack p)
        (visitReference files r stack q) := visitReference_same r hfirst h
    rw [visitAll, visitAll]
    cases hp : visitReference files r stack p with
    | mk result between =>
      cases hq : visitReference files r stack q with
      | mk result' between' =>
        rw [hp, hq] at hreference
        obtain rfl : result = result' := hreference.result
        cases result with
        | error e => exact .error e _ _
        | ok _ => exact visitAll_same rest hlater (hreference.pass rfl)

theorem visitReference_same {files : Files} {names : List String} : ∀ (r : Reference)
    {stack : List String} {p q : Pass}, r.imageNames ⊆ names → Alike names p q →
      SameStep names (visitReference files r stack p) (visitReference files r stack q)
  | .unit u, stack, p, q, hnames, h => by
    rw [visitReference, visitReference, ← h.images]
    split
    · exact .error _ _ _
    split
    · exact .error _ _ _
    split
    · exact .ok h
    · exact visit_same u hnames h
  | .binary path, stack, p, q, hnames, h => by
    rw [visitReference, visitReference]
    simp only [← h.images]
    split
    · exact .error _ _ _
    split
    · exact .ok h
    · next hnew =>
      exact addBinary_same h (hnames (List.mem_singleton_self _)) (Bool.eq_false_iff.2 hnew)

end

theorem alike_start {names : List String} {store store' : Store}
    (h : store.AgreeOn names store') : Alike names (.start store) (.start store') :=
  ⟨rfl, rfl, fun name hname _ => h name hname⟩

/-- The same closure or the same fault, but for which of the missing references is named. -/
inductive SameOutcome :
    Except MaterializeFault Closure → Except MaterializeFault Closure → Prop
  | same (outcome : Except MaterializeFault Closure) : SameOutcome outcome outcome
  | incomplete (image missing image' missing' : String) :
    SameOutcome (.error (.incomplete image missing)) (.error (.incomplete image' missing'))

/-- The stores are looked up for binary references only. -/
theorem materialize_agree (order : Order) (files : Files) {u : SourceUnit} {store store' : Store}
    (h : store.AgreeOn u.imageNames store') :
    (materialize order files store u).1 = (materialize order files store' u).1 := by
  have hvisit : SameStep u.imageNames (visit files u [] (.start store))
      (visit files u [] (.start store')) := visit_same u (List.Subset.refl _) (alike_start h)
  unfold materialize
  cases hp : visit files u [] (.start store) with
  | mk result r =>
    cases hq : visit files u [] (.start store') with
    | mk result' r' =>
      rw [hp, hq] at hvisit
      obtain rfl : result = result' := hvisit.result
      cases result with
      | error e => rfl
      | ok _ =>
        have halike : Alike u.imageNames r r' := hvisit.pass rfl
        have hdangling : dangling? order r = dangling? order r' := by
          rw [dangling?, dangling?, halike.decoded, halike.images]
        simp only [hdangling, halike.images]
        cases dangling? order r' with
        | none => rfl
        | some missing => rfl

/-- The order decides which missing reference is named, and nothing else. -/
theorem materialize_reordered (order order' : Order) (files : Files) (store : Store)
    (u : SourceUnit) :
    SameOutcome (materialize order files store u).1 (materialize order' files store u).1 := by
  unfold materialize
  cases visit files u [] (.start store) with
  | mk result q =>
    cases result with
    | error e => exact .same _
    | ok _ =>
      have hmissing : dangling? order q = none ↔ dangling? order' q = none :=
        dangling?_eq_none_iff.trans dangling?_eq_none_iff.symm
      simp only
      cases hfound : dangling? order q with
      | none =>
        rw [hmissing.1 hfound]
        exact .same _
      | some found =>
        cases hfound' : dangling? order' q with
        | none => cases hfound.symm.trans (hmissing.2 hfound')
        | some found' => exact .incomplete _ _ _ _

theorem materialize_alike (order order' : Order) (files : Files) {u : SourceUnit}
    {store store' : Store} (h : store.AgreeOn u.imageNames store') :
    SameOutcome (materialize order files store u).1 (materialize order' files store' u).1 := by
  rw [materialize_agree order files h]
  exact materialize_reordered order order' files store' u

end Materialize

namespace Reporter

/-- The reporter with stores of another lifetime. -/
def withScope (r : Reporter) (scope : CacheScope) : Reporter :=
  { r with settings := { r.settings with scope } }

/-- The verdicts on several methods, one after the other. -/
def evaluateAll (r : Reporter) : World → List (SourceUnit × MethodRef) →
    World × List (Option Verdict)
  | world, [] => (world, [])
  | world, (u, method) :: rest =>
    let (next, verdict) := r.evaluate world u method
    let (last, verdicts) := r.evaluateAll next rest
    (last, verdict :: verdicts)

variable {world world' : World} {u : SourceUnit}

/-- Which of the missing references is named makes no difference to what is run. -/
theorem subject_same {r r' : Reporter}
    (hclosure : Materialize.SameOutcome (r.closure? world u) (r'.closure? world' u))
    (hframeworks : r'.frameworks = r.frameworks) (method : MethodRef) :
    r.subject world u method = r'.subject world' u method := by
  unfold subject
  rw [hframeworks]
  generalize r.closure? world u = outcome at hclosure ⊢
  generalize r'.closure? world' u = outcome' at hclosure ⊢
  cases hclosure with
  | same => rfl
  | incomplete image missing image' missing' => rfl

variable (r : Reporter) (order : Materialize.Order)

/-- A single verdict depends neither on what the kept store holds nor on the order. -/
theorem evaluate_scope (hu : u.imageNames = []) (method : MethodRef)
    (hfiles : world.files = world'.files) :
    ((r.withScope .processWide).evaluate world u method).1.files =
        (({ r with order }.withScope .perInvocation).evaluate world' u method).1.files ∧
      ((r.withScope .processWide).evaluate world u method).2 =
        (({ r with order }.withScope .perInvocation).evaluate world' u method).2 := by
  have hclosure : Materialize.SameOutcome ((r.withScope .processWide).closure? world u)
      (({ r with order }.withScope .perInvocation).closure? world' u) := by
    rw [closure?, closure?, hfiles]
    exact Materialize.materialize_alike r.order order world'.files (.of_nil hu _ _)
  have hsubject := subject_same hclosure rfl method
  refine Prod.mk.inj ?_
  rw [evaluate_judges, evaluate_judges, hsubject, hfiles]
  rfl

theorem evaluateAll_scope {calls : List (SourceUnit × MethodRef)}
    (hcalls : ∀ call ∈ calls, call.1.imageNames = []) (hfiles : world.files = world'.files) :
    ((r.withScope .processWide).evaluateAll world calls).2 =
      (({ r with order }.withScope .perInvocation).evaluateAll world' calls).2 := by
  induction calls generalizing world world' with
  | nil => rfl
  | cons call rest ih =>
    obtain ⟨u, method⟩ := call
    obtain ⟨hu, hrest⟩ := List.forall_mem_cons.1 hcalls
    obtain ⟨hnext, hverdict⟩ := evaluate_scope r order hu method hfiles
    simp only [evaluateAll, hverdict, ih hrest hnext]

end Reporter

open Materialize (SameOutcome) in
/-- What a store holds under other names than those of the binary references makes no difference
to a pass, and without such references a kept store makes none to a verdict. -/
theorem cache_transparent (files : Files) :
    (∀ (order order' : Materialize.Order) (u : SourceUnit) (store store' : Store),
      store.AgreeOn u.imageNames store' →
        (materialize order files store u).1 = (materialize order files store' u).1 ∧
          SameOutcome (materialize order files store u).1 (materialize order' files store' u).1) ∧
    (∀ (order order' : Materialize.Order) (u : SourceUnit), u.imageNames = [] →
      ∀ store store' : Store,
        (materialize order files store u).1 = (materialize order files store' u).1 ∧
          SameOutcome (materialize order files store u).1 (materialize order' files store' u).1) ∧
    ∀ (r : Reporter) (order : Materialize.Order) (calls : List (SourceUnit × MethodRef))
      (store store' : Store), (∀ call ∈ calls, call.1.imageNames = []) →
        ((r.withScope .processWide).evaluateAll ⟨files, store⟩ calls).2 =
          (({ r with order }.withScope .perInvocation).evaluateAll ⟨files, store'⟩ calls).2 := by
  refine ⟨?_, ?_, ?_⟩
  · intro order order' u store store' h
    exact ⟨Materialize.materialize_agree order files h,
      Materialize.materialize_alike order order' files h⟩
  · intro order order' u hu store store'
    have hagree : store.AgreeOn u.imageNames store' := .of_nil hu store store'
    exact ⟨Materialize.materialize_agree order files hagree,
      Materialize.materialize_alike order order' files hagree⟩
  · intro r order calls store store' hcalls
    exact r.evaluateAll_scope order hcalls rfl

/-- A unit that calls an image which is not a file any more. -/
def diaryUnit : SourceUnit :=
  .mk "Diary" [⟨"d.tdl", "class Diary \x7b [Test] fn write() \x7b Quill.dip(); \x7d \x7d"⟩]
    [.binary "old/Quill.tdi"]

def quillImage : Image := ⟨"Quill", [], [⟨"Quill", [], [], [⟨"dip", 0, 0, [], [], 1⟩]⟩]⟩

def quillStore : Store := Store.empty.add (.ofBytes "Quill" quillImage.bytes)

def tornUnit : SourceUnit := .mk "Diary" [⟨"d.tdl", "class Diary \x7b"⟩] []

def penUnit : SourceUnit :=
  .mk "Pen" [⟨"p.tdl", "class Pen \x7b [Test] fn write() \x7b assert(1 == 1); \x7d \x7d"⟩] []

theorem cache_transparent_diary :
    (∃ closure, (materialize .sorted .fresh quillStore diaryUnit).1 = .ok closure ∧
      (materialize .sorted .fresh (quillStore.add (.ofBytes "Diary" [1])) diaryUnit).1 =
        .ok closure) ∧
    (materialize .sorted .fresh quillStore penUnit).1 =
      (materialize .sorted .fresh Store.empty penUnit).1 ∧
    ∀ r : Reporter,
      ((r.withScope .processWide).evaluateAll ⟨.fresh, quillStore⟩
          [(penUnit, ⟨"Pen", "write"⟩), (tornUnit, ⟨"Diary", "write"⟩),
            (penUnit, ⟨"Pen", "write"⟩)]).2 =
        (({ r with order := .sorted }.withScope .perInvocation).evaluateAll ⟨.fresh, Store.empty⟩
          [(penUnit, ⟨"Pen", "write"⟩), (tornUnit, ⟨"Diary", "write"⟩),
            (penUnit, ⟨"Pen", "write"⟩)]).2 := by
  refine ⟨?_, ?_, ?_⟩
  · have hagree : quillStore.AgreeOn diaryUnit.imageNames
        (quillStore.add (.ofBytes "Diary" [1])) := by decide +kernel
    have hok : (materialize .sorted .fresh quillStore diaryUnit).1.isOk = true := by decide +kernel
    have hsame := ((cache_transparent .fresh).1 .sorted .sorted diaryUnit _ _ hagree).1
    cases hclosure : (materialize .sorted .fresh quillStore diaryUnit).1 with
    | error e =>
      rw [hclosure] at hok
      cases hok
    | ok closure => exact ⟨closure, rfl, hsame.symm.trans hclosure⟩
  · exact ((cache_transparent .fresh).2.1 .sorted .sorted penUnit (by decide +kernel) _ _).1
  · intro r
    exact (cache_transparent .fresh).2.2 r .sorted _ _ _ (by decide +kernel)

end TestBench
