import Mathlib.Data.List.Forall2
import Mathlib.Data.List.Infix
import Mathlib.Logic.Relation
import TestBench.Verdict.Framework

/-!
Decorated attribute names. A name may be written in any case, with a namespace
in front and with the word `Attribute` behind it. None of this changes which
of the names of the frameworks it is recognized as: these have no dots in them,
and none of them ends with the word or is an ending of it. So a framework sees
the same roles, whatever the order of the attributes and however often each is
declared.
-/
namespace TestBench

namespace Framework

/-- The word that may stand behind the name of an attribute. -/
def ending : List Char := "attribute".toList

/-- One change to how the name of an attribute is written. -/
inductive Rewrites : String → String → Prop
  | recase {declared written : String} (h : lower written = lower declared) :
    Rewrites declared written
  | qualify (space declared : String) : Rewrites declared (space ++ "." ++ declared)
  | complete {declared word : String} (hword : lower word = ending)
    (hdeclared : ¬ending <:+ lower declared) : Rewrites declared (declared ++ word)

/-- The name is the same but for any number of changes to how it is written. -/
abbrev Decorates : String → String → Prop := Relation.ReflTransGen Rewrites

/-- What decoration adds to a name cannot be taken for a part of this one. -/
structure Plain (recognized : String) : Prop where
  undotted : '.' ∉ lower recognized
  not_ending : ¬lower recognized <:+ ending
  not_completed : ¬ending <:+ lower recognized

/-- The names that the known frameworks recognize. -/
theorem plain_of_mem {f : Framework} (hf : f ∈ all) {entry : String × Role}
    (h : entry ∈ f.attributes) : Plain entry.1 := by
  have htables : ∀ f ∈ all, ∀ entry ∈ f.attributes, '.' ∉ lower entry.1 ∧
      ¬lower entry.1 <:+ ending ∧ ¬ending <:+ lower entry.1 := by decide
  obtain ⟨hundotted, hending, hcompleted⟩ := htables f hf entry h
  exact ⟨hundotted, hending, hcompleted⟩

section Recognition

variable {recognized declared written : String}

theorem endsWith_iff {text word : List Char} : endsWith text word = true ↔ word <:+ text := by
  rw [endsWith, List.isPrefixOf_iff_prefix, List.reverse_prefix]

theorem recognizes_iff : recognizes recognized declared = true ↔
    lower recognized <:+ lower declared ∨ lower recognized ++ ending <:+ lower declared := by
  rw [recognizes, Bool.or_eq_true, endsWith_iff, endsWith_iff]
  rfl

theorem lower_append (s t : String) : lower (s ++ t) = lower s ++ lower t := by
  rw [lower, lower, lower, String.toList_append, List.map_append]

/-- What ends a text behind a separator that it does not have in it ends the last part. -/
theorem suffix_behind_iff {word front text : List Char} (h : '.' ∉ word) :
    word <:+ front ++ '.' :: text ↔ word <:+ text := by
  constructor
  · intro hsuffix
    have htext : text <:+ front ++ '.' :: text :=
      List.suffix_append_of_suffix (List.suffix_cons '.' text)
    by_cases hlength : word.length ≤ text.length
    · exact List.suffix_of_suffix_length_le hsuffix htext hlength
    · have hdotted : '.' :: text <:+ word := by
        refine List.suffix_of_suffix_length_le (List.suffix_append front ('.' :: text)) hsuffix ?_
        simp only [List.length_cons]
        omega
      exact absurd (hdotted.subset List.mem_cons_self) h
  · intro hsuffix
    exact List.suffix_append_of_suffix (hsuffix.trans (List.suffix_cons '.' text))

/-- Without the word at the end, a name is recognized by its own end only. -/
theorem recognizes_uncompleted (h : ¬ending <:+ lower declared) :
    recognizes recognized declared = true ↔ lower recognized <:+ lower declared := by
  rw [recognizes_iff]
  constructor
  · rintro (hsuffix | hcompleted)
    · exact hsuffix
    · exact absurd ((List.suffix_append _ _).trans hcompleted) h
  · exact Or.inl

/-- With the word at the end, what stands before the word decides. -/
theorem recognizes_completed (hplain : Plain recognized) {text : List Char}
    (h : lower written = text ++ ending) :
    recognizes recognized written = true ↔ lower recognized <:+ text := by
  rw [recognizes_iff, h]
  constructor
  · rintro (hsuffix | hcompleted)
    · have hword : ending <:+ text ++ ending := List.suffix_append _ _
      rcases List.suffix_or_suffix_of_suffix hsuffix hword with hinside | houtside
      · exact absurd hinside hplain.not_ending
      · exact absurd houtside hplain.not_completed
    · exact List.suffix_append_self_iff.1 hcompleted
  · intro hsuffix
    exact Or.inr (List.suffix_append_self_iff.2 hsuffix)

theorem recognizes_qualified (hplain : Plain recognized) (space declared : String) :
    recognizes recognized (space ++ "." ++ declared) = recognizes recognized declared := by
  have hlower : lower (space ++ "." ++ declared) = lower space ++ '.' :: lower declared := by
    have hdot : lower "." = ['.'] := by decide
    rw [lower_append, lower_append, hdot, List.append_assoc, List.singleton_append]
  have hword : '.' ∉ lower recognized ++ ending := by
    rw [List.mem_append, not_or]
    exact ⟨hplain.undotted, by decide⟩
  rw [Bool.eq_iff_iff, recognizes_iff, recognizes_iff, hlower,
    suffix_behind_iff hplain.undotted, suffix_behind_iff hword]

theorem Rewrites.recognizes_eq (hplain : Plain recognized) (h : Rewrites declared written) :
    recognizes recognized written = recognizes recognized declared := by
  cases h with
  | recase h => rw [recognizes, recognizes, h]
  | qualify space => exact recognizes_qualified hplain space declared
  | complete hword hdeclared =>
    rw [Bool.eq_iff_iff, recognizes_uncompleted hdeclared]
    exact recognizes_completed hplain (by rw [lower_append, hword])

/-- Decoration neither hides a plain name nor makes one up. -/
theorem recognizes_decorated (hplain : Plain recognized) (h : Decorates declared written) :
    recognizes recognized written = recognizes recognized declared := by
  induction h with
  | refl => rfl
  | tail _ hstep ih => rw [hstep.recognizes_eq hplain, ih]

end Recognition

end Framework

/-- The same method with its attributes decorated, in any order and number: each of them is still
there, and there are no others. -/
structure MethodSummary.Redecorates (m m' : MethodSummary) : Prop where
  name : m'.name = m.name
  arity : m'.arity = m.arity
  kept : ∀ declared ∈ m.attributes, ∃ written ∈ m'.attributes,
    Framework.Decorates declared written
  made : ∀ written ∈ m'.attributes, ∃ declared ∈ m.attributes,
    Framework.Decorates declared written

namespace Framework

variable {f : Framework} {m m' : MethodSummary} {siblings siblings' : List MethodSummary}

theorem hasRole_iff {declared : List String} {role : Role} : f.hasRole declared role = true ↔
    ∃ recognized, (recognized, role) ∈ f.attributes ∧
      ∃ d ∈ declared, recognizes recognized d = true := by
  simp only [hasRole, List.any_eq_true, Bool.and_eq_true, beq_iff_eq]
  constructor
  · rintro ⟨⟨recognized, _⟩, hentry, rfl, hdeclared⟩
    exact ⟨recognized, hentry, hdeclared⟩
  · rintro ⟨recognized, hentry, hdeclared⟩
    exact ⟨(recognized, role), hentry, rfl, hdeclared⟩

/-- Redecorated methods have the same roles. -/
theorem hasRole_redecorated (hf : f ∈ all) (h : m.Redecorates m') (role : Role) :
    f.hasRole m'.attributes role = f.hasRole m.attributes role := by
  rw [Bool.eq_iff_iff, hasRole_iff, hasRole_iff]
  constructor
  · rintro ⟨recognized, hentry, written, hwritten, hrecognizes⟩
    obtain ⟨declared, hdeclared, hdecorates⟩ := h.made written hwritten
    have hsame := recognizes_decorated (plain_of_mem hf hentry) hdecorates
    exact ⟨recognized, hentry, declared, hdeclared, hsame ▸ hrecognizes⟩
  · rintro ⟨recognized, hentry, declared, hdeclared, hrecognizes⟩
    obtain ⟨written, hwritten, hdecorates⟩ := h.kept declared hdeclared
    have hsame := recognizes_decorated (plain_of_mem hf hentry) hdecorates
    exact ⟨recognized, hentry, written, hwritten, hsame ▸ hrecognizes⟩

theorem canRun_redecorated (hf : f ∈ all) (h : m.Redecorates m') :
    f.canRun m' = f.canRun m := by
  rw [canRun, canRun, hasRole_redecorated hf h, hasRole_redecorated hf h]

theorem select_redecorated (h : m.Redecorates m') : select all m' = select all m := by
  have hall : ∀ known : List Framework, (∀ f ∈ known, f ∈ all) →
      select known m' = select known m := by
    intro known hknown
    induction known with
    | nil => rfl
    | cons f rest ih =>
      obtain ⟨hf, hrest⟩ := List.forall_mem_cons.1 hknown
      have hrun := canRun_redecorated hf h
      have hlater := ih hrest
      rw [select] at hlater ⊢
      rw [select, List.find?_cons, List.find?_cons, hrun, hlater]
      rfl
  exact hall all fun f hf => hf

/-- An attribute of tests that cannot be run keeps a framework from being selected. -/
theorem select_ne_of_excluded {recognized : String} {declared : String}
    (hentry : (recognized, .excluded) ∈ f.attributes) (hdeclared : declared ∈ m.attributes)
    (h : recognizes recognized declared = true) (frameworks : List Framework) :
    select frameworks m ≠ some f := by
  intro hselect
  have hrun : f.canRun m = true := by
    have hfound : frameworks.find? (fun g => g.canRun m) = some f := hselect
    exact List.find?_some (p := fun g : Framework => g.canRun m) hfound
  have hexcluded : f.hasRole m.attributes .excluded = true :=
    hasRole_iff.2 ⟨recognized, hentry, declared, hdeclared, h⟩
  rw [canRun, hexcluded, Bool.not_true, Bool.and_false] at hrun
  exact Bool.false_ne_true hrun

/-- The method is the first in order of declaration with the role. -/
structure First (f : Framework) (role : Role) (siblings : List MethodSummary) (place : Nat)
    (m : MethodSummary) : Prop where
  here : siblings[place]? = some m
  carries : f.hasRole m.attributes role = true
  earlier : ∀ i e, i < place → siblings[i]? = some e → f.hasRole e.attributes role = false

theorem locate_eq_some {role : Role} {name : String} (h : f.locate siblings role = some name) :
    ∃ place m, f.First role siblings place m ∧ m.name = name := by
  obtain ⟨m, hfind, hname⟩ := Option.map_eq_some_iff.1 h
  obtain ⟨hrole, before, after, rfl, hbefore⟩ := List.find?_eq_some_iff_append.1 hfind
  refine ⟨before.length, m, ⟨?_, hrole, ?_⟩, hname⟩
  · rw [List.getElem?_append_right (Nat.le_refl _), Nat.sub_self]
    rfl
  · intro i e hi he
    rw [List.getElem?_append_left hi] at he
    have hnot := hbefore e (List.mem_of_getElem? he)
    simpa using hnot

theorem locate_eq_none {role : Role} (h : f.locate siblings role = none) :
    ∀ m ∈ siblings, f.hasRole m.attributes role = false := by
  intro m hm
  have hnot := List.find?_eq_none.1 (Option.map_eq_none_iff.1 h) m hm
  simpa using hnot

theorem locate_redecorated (hf : f ∈ all)
    (h : List.Forall₂ MethodSummary.Redecorates siblings siblings') (role : Role) :
    f.locate siblings' role = f.locate siblings role := by
  induction h with
  | nil => rfl
  | @cons m m' rest rest' hm _ ih =>
    have hrole := hasRole_redecorated hf hm role
    rw [locate] at ih ⊢
    rw [locate, List.find?_cons, List.find?_cons, hrole]
    cases f.hasRole m.attributes role with
    | true =>
      change some m'.name = some m.name
      rw [hm.name]
    | false => exact ih

/-- Redecorated methods stand where they stood. -/
theorem exists_redecorated (h : List.Forall₂ MethodSummary.Redecorates siblings siblings')
    (i : Nat) :
    (∀ m, siblings[i]? = some m → ∃ m', siblings'[i]? = some m' ∧ m.Redecorates m') ∧
      ∀ m', siblings'[i]? = some m' → ∃ m, siblings[i]? = some m ∧ m.Redecorates m' := by
  induction h generalizing i with
  | nil => simp
  | @cons m m' rest rest' hm _ ih =>
    cases i with
    | zero =>
      constructor
      · intro e he
        obtain rfl : m = e := by simpa using he
        exact ⟨m', rfl, hm⟩
      · intro e he
        obtain rfl : m' = e := by simpa using he
        exact ⟨m, rfl, hm⟩
    | succ i =>
      simp only [List.getElem?_cons_succ]
      exact ih i

/-- What is the first method with a role stays so. -/
theorem First.redecorated {role : Role} {place : Nat} (hf : f ∈ all)
    (h : List.Forall₂ MethodSummary.Redecorates siblings siblings')
    (hfirst : f.First role siblings place m) :
    ∃ m', f.First role siblings' place m' ∧ m'.name = m.name := by
  obtain ⟨m', hplace, hm⟩ := (exists_redecorated h place).1 m hfirst.here
  refine ⟨m', ⟨hplace, ?_, ?_⟩, hm.name⟩
  · rw [hasRole_redecorated hf hm]
    exact hfirst.carries
  · intro i e' hi he'
    obtain ⟨e, he, hredecorates⟩ := (exists_redecorated h i).2 e' he'
    rw [hasRole_redecorated hf hredecorates]
    exact hfirst.earlier i e hi he

/-- The method that both lists give a role is the same one, and the first in order of declaration;
or no method of either has the role. -/
structure LocatesAlike (f : Framework) (role : Role) (siblings siblings' : List MethodSummary) :
    Prop where
  same : f.locate siblings' role = f.locate siblings role
  first : ∀ name, f.locate siblings role = some name → ∃ place m m',
    f.First role siblings place m ∧ f.First role siblings' place m' ∧ m.name = name ∧ m'.name = name
  nobody : f.locate siblings role = none →
    (∀ m ∈ siblings, f.hasRole m.attributes role = false) ∧
      ∀ m ∈ siblings', f.hasRole m.attributes role = false

theorem locatesAlike (hf : f ∈ all)
    (h : List.Forall₂ MethodSummary.Redecorates siblings siblings') (role : Role) :
    f.LocatesAlike role siblings siblings' := by
  have hsame := locate_redecorated hf h role
  refine ⟨hsame, ?_, ?_⟩
  · intro name hname
    obtain ⟨place, m, hfirst, rfl⟩ := locate_eq_some hname
    obtain ⟨m', hfirst', hm'⟩ := hfirst.redecorated hf h
    exact ⟨place, m, m', hfirst, hfirst', rfl, hm'⟩
  · intro hnone
    exact ⟨locate_eq_none hnone, locate_eq_none (hsame.trans hnone)⟩

/-- However attributes are decorated, ordered and repeated, a method is run by the same framework as
before, if by any, with the same methods to set up and to tear down. -/
theorem detection_undecorated
    (h : List.Forall₂ MethodSummary.Redecorates siblings siblings') :
    List.Forall₂ (fun m m' => select all m' = select all m) siblings siblings' ∧
    (∀ f ∈ all, ∀ (m : MethodSummary) before declared after recognized,
      m.attributes = before ++ declared :: after → (recognized, .excluded) ∈ f.attributes →
        recognizes recognized declared = true → select all m ≠ some f) ∧
    ∀ f ∈ all, f.LocatesAlike .setup siblings siblings' ∧
      f.LocatesAlike .teardown siblings siblings' := by
  refine ⟨h.imp fun m m' hm => select_redecorated hm, ?_, ?_⟩
  · intro f _ m before declared after recognized hattributes hentry hrecognizes
    have hdeclared : declared ∈ m.attributes := by
      rw [hattributes]
      exact List.mem_append_right before List.mem_cons_self
    exact select_ne_of_excluded hentry hdeclared hrecognizes all
  · intro f hf
    exact ⟨locatesAlike hf h .setup, locatesAlike hf h .teardown⟩

/-- A method that sets up, a test, and a test of a kind that cannot be run. -/
def plainMethods : List MethodSummary :=
  [⟨"prepare", ["SetUp"], 0⟩, ⟨"adds", ["Category", "Test"], 0⟩, ⟨"holds", ["Test", "Theory"], 1⟩]

def decoratedMethods : List MethodSummary :=
  [⟨"prepare", ["NUnit.Framework.setupATTRIBUTE", "SetUp"], 0⟩,
    ⟨"adds", ["TestAttribute", "Category", "TestAttribute"], 0⟩,
    ⟨"holds", ["x.theory", "Test"], 1⟩]

theorem plainMethods_redecorated :
    List.Forall₂ MethodSummary.Redecorates plainMethods decoratedMethods := by
  have hrecase : ∀ {declared written : String}, lower written = lower declared →
      Decorates declared written := fun h => .single (.recase h)
  have hsetup : Decorates "SetUp" "NUnit.Framework.setupATTRIBUTE" := by
    have hword : Decorates "SetUp" ("setup" ++ "ATTRIBUTE") :=
      (hrecase (by decide)).tail (.complete (by decide) (by decide))
    have hspace : "NUnit.Framework" ++ "." ++ ("setup" ++ "ATTRIBUTE") =
        "NUnit.Framework.setupATTRIBUTE" := by decide
    exact hspace ▸ hword.tail (.qualify "NUnit.Framework" _)
  have htest : Decorates "Test" "TestAttribute" := by
    have hword : "Test" ++ "Attribute" = "TestAttribute" := by decide
    exact hword ▸ .single (.complete (by decide) (by decide))
  have htheory : Decorates "Theory" "x.theory" := by
    have hspace : "x" ++ "." ++ "theory" = "x.theory" := by decide
    exact hspace ▸ (hrecase (by decide)).tail (.qualify "x" _)
  have hkeep : ∀ declared, Decorates declared declared := fun _ => .refl
  refine .cons ⟨rfl, rfl, ?_, ?_⟩ (.cons ⟨rfl, rfl, ?_, ?_⟩ (.cons ⟨rfl, rfl, ?_, ?_⟩ .nil))
  all_goals simp [hkeep, hsetup, htest, htheory]

theorem detection_undecorated_methods :
    List.Forall₂ MethodSummary.Redecorates plainMethods decoratedMethods ∧
    decoratedMethods.map (select all) = [none, some nunit, none] ∧
    nunit.locate decoratedMethods .setup = some "prepare" := by
  obtain ⟨hselect, -, hlocate⟩ := detection_undecorated plainMethods_redecorated
  have hplain : plainMethods.map (select all) = [none, some nunit, none] := by decide
  refine ⟨plainMethods_redecorated, ?_, ?_⟩
  · rw [← hplain, ← List.forall₂_eq_eq_eq, List.forall₂_map_left_iff, List.forall₂_map_right_iff]
    exact hselect.flip
  · rw [(hlocate nunit List.mem_cons_self).1.same]
    decide

end Framework

end TestBench
