import Mathlib.Data.List.Basic
import TestBench.Proofs.DepthLimits

/-!
What the run of a test consists of. Once there is an instance, the methods of
the stages are called on it one after the other, each as the one before left it,
be it with a fault. Which stages there are depends on the plan, and for the test
on how the setup went. The run comes to an end if all its calls do, and then it
reports these stages and the first fault in them.
-/
namespace TestBench.FixturePlan

open Machine (Instance Fault Value)

/-- The call of a method for a stage: the instance before, the result and the instance after. -/
structure Attempt where
  stage : Stage
  method : String
  before : Instance
  result : Except Fault Value
  after : Instance

namespace Attempt

def Succeeds (a : Attempt) : Prop := ∃ v, a.result = .ok v

def failure? (a : Attempt) : Option Failure :=
  match a.result with
  | .ok _ => none
  | .error fault => some ⟨a.stage, fault⟩

theorem failure?_eq_none {a : Attempt} : a.failure? = none ↔ a.Succeeds := by
  unfold failure? Succeeds
  cases a.result with
  | ok v => exact iff_of_true rfl ⟨v, rfl⟩
  | error fault => exact iff_of_false (Option.some_ne_none _) (by simp)

theorem failure?_eq_some {a : Attempt} {failure : Failure} : a.failure? = some failure ↔
    a.stage = failure.stage ∧ a.result = .error failure.fault := by
  obtain ⟨stage, fault⟩ := failure
  unfold failure?
  cases a.result with
  | ok v => simp
  | error cause => simp

end Attempt

/-- Each attempt is made on the instance that the one before it left, and the first on this one. -/
def HandedOn : Instance → List Attempt → Prop
  | _, [] => True
  | self, a :: rest => a.before = self ∧ HandedOn a.after rest

/-- The instance that attempts leave in the end. -/
def left : Instance → List Attempt → Instance
  | self, [] => self
  | _, a :: rest => left a.after rest

theorem handedOn_append {self : Instance} {log more : List Attempt} :
    HandedOn self (log ++ more) ↔ HandedOn self log ∧ HandedOn (left self log) more := by
  induction log generalizing self with
  | nil => exact (and_iff_right trivial).symm
  | cons a rest ih => rw [List.cons_append, HandedOn, HandedOn, ih, and_assoc, left]

theorem left_append (self : Instance) (log more : List Attempt) :
    left self (log ++ more) = left (left self log) more := by
  induction log generalizing self with
  | nil => rfl
  | cons a rest ih => exact ih a.after

/-- The method that a plan has for a stage. -/
def method? (plan : FixturePlan) : Stage → Option String
  | .instantiate => none
  | .setup => plan.setup
  | .test => some plan.test
  | .teardown => plan.teardown

/-- The stages to be attempted on an instance: the setup and the teardown if there are any, and the
test if there is no setup or it went well. -/
def Due (plan : FixturePlan) (log : List Attempt) : Stage → Prop
  | .instantiate => False
  | .setup => plan.setup.isSome
  | .test => plan.setup = none ∨ ∃ a ∈ log, a.stage = .setup ∧ a.Succeeds
  | .teardown => plan.teardown.isSome

/-- The attempts that the plan makes on an instance: those that are due, each once and in this
order, with the methods of the plan. -/
structure Follows (plan : FixturePlan) (m : Machine) (made : Instance) (log : List Attempt) :
    Prop where
  order : (log.map (·.stage)).Sublist [.setup, .test, .teardown]
  due : ∀ stage, stage ∈ log.map (·.stage) ↔ plan.Due log stage
  called : ∀ a ∈ log, plan.method? a.stage = some a.method ∧
    m.Invokes a.before a.method a.result a.after
  handedOn : HandedOn made log

/-- The outcome lists the stages of the attempts behind that of making the instance, and the failure
of the first one that does not succeed. -/
structure Outcome.Reports (outcome : Outcome) (log : List Attempt) : Prop where
  executed : outcome.executed = .instantiate :: log.map (·.stage)
  passed : outcome.failure = none ↔ ∀ a ∈ log, a.Succeeds
  failed : ∀ failure, outcome.failure = some failure ↔ ∃ earlier a later,
    log = earlier ++ a :: later ∧ (∀ b ∈ earlier, b.Succeeds) ∧ a.stage = failure.stage ∧
      a.result = .error failure.fault

/-- The run of the plan comes to an end, with this outcome. -/
def Ends (plan : FixturePlan) (m : Machine) (outcome : Outcome) : Prop :=
  ∃ fuel, plan.run m fuel = some outcome

namespace Outcome

/-- The outcome of attempts. -/
def ofLog (log : List Attempt) : Outcome :=
  ⟨.instantiate :: log.map (·.stage), log.findSome? Attempt.failure?⟩

theorem ofLog_after (log : List Attempt) (a : Attempt) :
    (ofLog log).after a.stage a.result = ofLog (log ++ [a]) := by
  have hfailure : (log ++ [a]).findSome? Attempt.failure? =
      (log.findSome? Attempt.failure?).or a.failure? := by
    rw [List.findSome?_append, List.findSome?_singleton]
  unfold ofLog after
  rw [hfailure, List.map_append]
  cases log.findSome? Attempt.failure? with
  | some failure => rfl
  | none =>
    unfold Attempt.failure?
    cases a.result <;> rfl

theorem reports_iff {outcome : Outcome} {log : List Attempt} :
    outcome.Reports log ↔ outcome = ofLog log := by
  have hfailed : ∀ failure, (ofLog log).failure = some failure ↔ ∃ earlier a later,
      log = earlier ++ a :: later ∧ (∀ b ∈ earlier, b.Succeeds) ∧ a.stage = failure.stage ∧
        a.result = .error failure.fault := by
    intro failure
    simp only [ofLog, List.findSome?_eq_some_iff, Attempt.failure?_eq_some,
      Attempt.failure?_eq_none]
    simp only [and_comm, and_left_comm]
  constructor
  · intro h
    have hfailure : outcome.failure = (ofLog log).failure :=
      Option.ext fun failure => (h.failed failure).trans (hfailed failure).symm
    obtain ⟨executed, failure⟩ := outcome
    exact Outcome.mk.injEq .. ▸ ⟨h.executed, hfailure⟩
  · rintro rfl
    refine ⟨rfl, ?_, hfailed⟩
    simp only [ofLog, List.findSome?_eq_none_iff, Attempt.failure?_eq_none]

end Outcome

/-- What comes of a stage: nothing if it has no method, and else one call. -/
inductive Tried (m : Machine) (stage : Stage) (self : Instance) :
    Option String → List Attempt → Prop
  | absent : Tried m stage self none []
  | called {name : String} {result : Except Fault Value} {after : Instance} :
      m.Invokes self name result after →
        Tried m stage self (some name) [⟨stage, name, self, result, after⟩]

section Stages

variable {m : Machine} {plan : FixturePlan} {stage : Stage} {self : Instance}
  {method : Option String} {log more : List Attempt} {fuel : Nat}

theorem tried_of_attempt {state : Outcome × Instance}
    (h : attempt m fuel stage method (.ofLog log, self) = some state) :
    ∃ more, Tried m stage self method more ∧
      state = (.ofLog (log ++ more), left self more) := by
  unfold attempt at h
  cases method with
  | none => exact ⟨[], .absent, by rw [List.append_nil]; exact (Option.some.inj h).symm⟩
  | some name =>
    obtain ⟨⟨result, after⟩, hinvoke, h⟩ := Option.bind_eq_some_iff.1 h
    refine ⟨_, .called ⟨fuel, hinvoke⟩, (Option.some.inj h).symm.trans ?_⟩
    rw [← Outcome.ofLog_after]
    rfl

/-- From some amount of fuel on, a stage is done with. -/
theorem Tried.attempt_eq (h : Tried m stage self method more) (log : List Attempt) :
    ∃ least, ∀ fuel, least ≤ fuel → attempt m fuel stage method (.ofLog log, self) =
      some (.ofLog (log ++ more), left self more) := by
  cases h with
  | absent => exact ⟨0, fun fuel _ => by rw [List.append_nil]; rfl⟩
  | called hinvokes =>
    obtain ⟨least, hinvoke⟩ := hinvokes
    refine ⟨least, fun fuel hle => ?_⟩
    rw [← Outcome.ofLog_after]
    exact Option.bind_eq_some_iff.2 ⟨_, Machine.invoke_extends hle hinvoke, rfl⟩

theorem tried_iff : Tried m stage self method log ↔
    (log.map (·.stage)).Sublist [stage] ∧ (log ≠ [] ↔ method.isSome) ∧
      (∀ a ∈ log, method = some a.method ∧ m.Invokes a.before a.method a.result a.after) ∧
      HandedOn self log := by
  constructor
  · intro h
    cases h with
    | absent => exact ⟨List.nil_sublist _, by simp, List.forall_mem_nil _, trivial⟩
    | called hinvokes =>
      exact ⟨List.Sublist.refl _, by simp, List.forall_mem_singleton.2 ⟨rfl, hinvokes⟩, rfl,
        trivial⟩
  · rintro ⟨hstages, hsome, hcalled, hhanded⟩
    rcases List.sublist_singleton.1 hstages with hnil | hone
    · obtain rfl := List.map_eq_nil_iff.1 hnil
      obtain rfl : method = none := by simpa using hsome
      exact .absent
    · obtain ⟨a, rfl, rfl⟩ := List.map_eq_singleton_iff.1 hone
      obtain ⟨rfl, hinvokes⟩ := hcalled a (List.mem_singleton_self a)
      obtain ⟨rfl, -⟩ := hhanded
      exact .called hinvokes

end Stages

/-- The method of the test, if the setup did not fail. -/
def testMethod? (plan : FixturePlan) (setup : List Attempt) : Option String :=
  if (Outcome.ofLog setup).passed then some plan.test else none

section Runs

variable {m : Machine} {plan : FixturePlan}

/-- A run ends exactly if the instance is made and the stages on it are done with. -/
theorem ends_iff_tried {outcome : Outcome} : plan.Ends m outcome ↔
    (∃ fault, m.Instantiates m.entry plan.typeName (.error fault) ∧
      outcome = ⟨[.instantiate], some ⟨.instantiate, fault⟩⟩) ∨
    ∃ self setup test teardown, m.Instantiates m.entry plan.typeName (.ok self) ∧
      Tried m .setup self plan.setup setup ∧
      Tried m .test (left self setup) (plan.testMethod? setup) test ∧
      Tried m .teardown (left (left self setup) test) plan.teardown teardown ∧
      outcome = .ofLog (setup ++ test ++ teardown) := by
  constructor
  · rintro ⟨fuel, hrun⟩
    unfold run at hrun
    obtain ⟨made, hmade, hrun⟩ := Option.bind_eq_some_iff.1 hrun
    cases made with
    | error fault => exact Or.inl ⟨fault, ⟨fuel, hmade⟩, (Option.some.inj hrun).symm⟩
    | ok self =>
      obtain ⟨state, hattempt, hrun⟩ := Option.bind_eq_some_iff.1 hrun
      have hattempt : attempt m fuel .setup plan.setup (.ofLog [], self) = some state := hattempt
      obtain ⟨setup, hsetup, rfl⟩ := tried_of_attempt hattempt
      obtain ⟨state, hattempt, hrun⟩ := Option.bind_eq_some_iff.1 hrun
      obtain ⟨test, htest, rfl⟩ := tried_of_attempt hattempt
      obtain ⟨state, hattempt, hrun⟩ := Option.bind_eq_some_iff.1 hrun
      obtain ⟨teardown, hteardown, rfl⟩ := tried_of_attempt hattempt
      exact Or.inr ⟨self, setup, test, teardown, ⟨fuel, hmade⟩, hsetup, htest, hteardown,
        (Option.some.inj hrun).symm⟩
  · rintro (⟨fault, ⟨fuel, hmade⟩, rfl⟩ |
      ⟨self, setup, test, teardown, ⟨least, hmade⟩, hsetup, htest, hteardown, rfl⟩)
    · exact ⟨fuel, Option.bind_eq_some_iff.2 ⟨_, hmade, rfl⟩⟩
    · obtain ⟨leastSetup, hsetup⟩ := hsetup.attempt_eq []
      obtain ⟨leastTest, htest⟩ := htest.attempt_eq setup
      obtain ⟨leastTeardown, hteardown⟩ := hteardown.attempt_eq (setup ++ test)
      -- The sum of the amounts is enough for each of the four steps.
      refine ⟨least + leastSetup + leastTest + leastTeardown, ?_⟩
      refine Option.bind_eq_some_iff.2
        ⟨_, Machine.instantiate_extends (by omega) hmade, ?_⟩
      refine Option.bind_eq_some_iff.2 ⟨_, hsetup _ (by omega), ?_⟩
      refine Option.bind_eq_some_iff.2 ⟨_, htest _ (by omega), ?_⟩
      exact Option.bind_eq_some_iff.2 ⟨_, hteardown _ (by omega), rfl⟩

end Runs

section Parts

variable {stage : Stage} {log setup test teardown : List Attempt}

theorem stage_of_sublist (h : (log.map (·.stage)).Sublist [stage]) : ∀ a ∈ log, a.stage = stage :=
  fun _ ha => List.mem_singleton.1 (h.subset (List.mem_map_of_mem ha))

/-- Attempts for one stage are those of this stage if there are any. -/
theorem mem_stages (h : (log.map (·.stage)).Sublist [stage]) (other : Stage) :
    other ∈ log.map (·.stage) ↔ other = stage ∧ log ≠ [] := by
  rcases List.sublist_singleton.1 h with hnil | hone
  · obtain rfl := List.map_eq_nil_iff.1 hnil
    simp
  · have hne : log ≠ [] := by
      rintro rfl
      cases hone
    rw [hone, List.mem_singleton, and_iff_left hne]

variable (hsetup : (setup.map (·.stage)).Sublist [.setup])
  (htest : (test.map (·.stage)).Sublist [.test])
  (hteardown : (teardown.map (·.stage)).Sublist [.teardown])

include hsetup htest hteardown

theorem mem_stages_parts (stage : Stage) :
    stage ∈ (setup ++ test ++ teardown).map (·.stage) ↔ stage = .setup ∧ setup ≠ [] ∨
      stage = .test ∧ test ≠ [] ∨ stage = .teardown ∧ teardown ≠ [] := by
  rw [List.map_append, List.map_append, List.mem_append, List.mem_append, mem_stages hsetup,
    mem_stages htest, mem_stages hteardown, or_assoc]

/-- The test is due exactly if it has a method after the setup. -/
theorem due_test_iff {plan : FixturePlan} (hpresent : setup ≠ [] ↔ plan.setup.isSome) :
    plan.Due (setup ++ test ++ teardown) .test ↔ (plan.testMethod? setup).isSome := by
  have hpassed : (Outcome.ofLog setup).passed = true ↔ ∀ a ∈ setup, a.Succeeds := by
    rw [Outcome.passed, Option.isNone_iff_eq_none]
    exact (Outcome.reports_iff.2 rfl).passed
  have hmethod : (plan.testMethod? setup).isSome ↔ ∀ a ∈ setup, a.Succeeds := by
    rw [← hpassed, testMethod?]
    split
    · next hpass => exact iff_of_true rfl hpass
    · next hfail => exact iff_of_false nofun hfail
  rw [hmethod]
  rcases List.sublist_singleton.1 hsetup with hnil | hone
  · obtain rfl := List.map_eq_nil_iff.1 hnil
    have hnone : plan.setup = none := by simpa using hpresent
    exact iff_of_true (Or.inl hnone) (List.forall_mem_nil _)
  · obtain ⟨a, rfl, ha⟩ := List.map_eq_singleton_iff.1 hone
    have hsome : plan.setup ≠ none := Option.isSome_iff_ne_none.1 (hpresent.1 (by simp))
    rw [List.forall_mem_singleton]
    constructor
    · rintro (hnone | ⟨b, hb, hstage, hsucceeds⟩)
      · exact absurd hnone hsome
      · rw [List.append_assoc, List.mem_append, List.mem_append, List.mem_singleton] at hb
        rcases hb with rfl | hb | hb
        · exact hsucceeds
        · cases hstage.symm.trans (stage_of_sublist htest b hb)
        · cases hstage.symm.trans (stage_of_sublist hteardown b hb)
    · exact fun hsucceeds => Or.inr ⟨a, by simp, ha, hsucceeds⟩

variable {m : Machine} {plan : FixturePlan} {self : Instance}

/-- Attempts for the three stages follow the plan exactly if they are what comes of these stages. -/
theorem follows_append_iff : plan.Follows m self (setup ++ test ++ teardown) ↔
    Tried m .setup self plan.setup setup ∧
    Tried m .test (left self setup) (plan.testMethod? setup) test ∧
    Tried m .teardown (left (left self setup) test) plan.teardown teardown := by
  have hmem := mem_stages_parts hsetup htest hteardown
  have hmethod : ∀ name, plan.testMethod? setup = some name →
      plan.method? .test = some name := by
    intro name hname
    unfold testMethod? at hname
    split at hname
    · exact hname
    · cases hname
  constructor
  · intro h
    have hdue := fun stage => (hmem stage).symm.trans (h.due stage)
    have hpresent : setup ≠ [] ↔ plan.setup.isSome := by simpa [Due] using hdue .setup
    have hclosing : teardown ≠ [] ↔ plan.teardown.isSome := by
      simpa [Due] using hdue .teardown
    have htested : test ≠ [] ↔ (plan.testMethod? setup).isSome := by
      rw [← due_test_iff hsetup htest hteardown hpresent, ← hdue .test]
      simp
    obtain ⟨hcalled, hcalledLast⟩ := List.forall_mem_append.1 h.called
    obtain ⟨hcalledFirst, hcalledNext⟩ := List.forall_mem_append.1 hcalled
    obtain ⟨hhanded, hhandedLast⟩ := handedOn_append.1 h.handedOn
    obtain ⟨hhandedFirst, hhandedNext⟩ := handedOn_append.1 hhanded
    rw [left_append] at hhandedLast
    refine ⟨tried_iff.2 ⟨hsetup, hpresent, fun a ha => ?_, hhandedFirst⟩,
      tried_iff.2 ⟨htest, htested, fun a ha => ?_, hhandedNext⟩,
      tried_iff.2 ⟨hteardown, hclosing, fun a ha => ?_, hhandedLast⟩⟩
    · have hcall := hcalledFirst a ha
      rwa [stage_of_sublist hsetup a ha] at hcall
    · obtain ⟨hname, hinvokes⟩ := hcalledNext a ha
      rw [stage_of_sublist htest a ha] at hname
      obtain ⟨name, hsome⟩ := Option.isSome_iff_exists.1 (htested.1 (List.ne_nil_of_mem ha))
      exact ⟨hsome.trans ((hmethod name hsome).symm.trans hname), hinvokes⟩
    · have hcall := hcalledLast a ha
      rwa [stage_of_sublist hteardown a ha] at hcall
  · rintro ⟨hfirst, hnext, hlast⟩
    obtain ⟨-, hpresent, hcalledFirst, hhandedFirst⟩ := tried_iff.1 hfirst
    obtain ⟨-, htested, hcalledNext, hhandedNext⟩ := tried_iff.1 hnext
    obtain ⟨-, hclosing, hcalledLast, hhandedLast⟩ := tried_iff.1 hlast
    refine ⟨?_, fun stage => ?_, ?_, ?_⟩
    · rw [List.map_append, List.map_append]
      exact (hsetup.append htest).append hteardown
    · rw [hmem]
      cases stage with
      | instantiate => simp [Due]
      | setup => simpa [Due] using hpresent
      | test =>
        rw [due_test_iff hsetup htest hteardown hpresent, ← htested]
        simp
      | teardown => simpa [Due] using hclosing
    · refine List.forall_mem_append.2 ⟨List.forall_mem_append.2 ⟨fun a ha => ?_, fun a ha => ?_⟩,
        fun a ha => ?_⟩
      · rw [stage_of_sublist hsetup a ha]
        exact hcalledFirst a ha
      · rw [stage_of_sublist htest a ha]
        exact (hcalledNext a ha).imp_left (hmethod _)
      · rw [stage_of_sublist hteardown a ha]
        exact hcalledLast a ha
    · rw [handedOn_append, handedOn_append, left_append]
      exact ⟨⟨hhandedFirst, hhandedNext⟩, hhandedLast⟩

end Parts

/-- What a plan does on an instance is what comes of its three stages. -/
theorem follows_iff_tried {m : Machine} {plan : FixturePlan} {self : Instance}
    {log : List Attempt} : plan.Follows m self log ↔ ∃ setup test teardown,
      log = setup ++ test ++ teardown ∧ Tried m .setup self plan.setup setup ∧
      Tried m .test (left self setup) (plan.testMethod? setup) test ∧
      Tried m .teardown (left (left self setup) test) plan.teardown teardown := by
  constructor
  · intro h
    have horder : (log.map (·.stage)).Sublist ([.setup] ++ [.test] ++ [.teardown]) := h.order
    obtain ⟨stages, last, hstages, horder, hteardown⟩ := List.sublist_append_iff.1 horder
    obtain ⟨front, teardown, rfl, rfl, rfl⟩ := List.map_eq_append_iff.1 hstages
    obtain ⟨first, next, hstages, hsetup, htest⟩ := List.sublist_append_iff.1 horder
    obtain ⟨setup, test, rfl, rfl, rfl⟩ := List.map_eq_append_iff.1 hstages
    exact ⟨setup, test, teardown, rfl, (follows_append_iff hsetup htest hteardown).1 h⟩
  · rintro ⟨setup, test, teardown, rfl, hsetup, htest, hteardown⟩
    exact (follows_append_iff (tried_iff.1 hsetup).1 (tried_iff.1 htest).1
      (tried_iff.1 hteardown).1).2 ⟨hsetup, htest, hteardown⟩

/-- A run ends exactly if making the instance ends with a fault, or all attempts that the plan asks
for end. They are reported with the first fault among them. -/
theorem ends_iff_follows (plan : FixturePlan) (m : Machine) (outcome : Outcome) :
    plan.Ends m outcome ↔
      (∃ fault, m.Instantiates m.entry plan.typeName (.error fault) ∧
        outcome = ⟨[.instantiate], some ⟨.instantiate, fault⟩⟩) ∨
      ∃ self log, m.Instantiates m.entry plan.typeName (.ok self) ∧ plan.Follows m self log ∧
        outcome.Reports log := by
  rw [ends_iff_tried]
  refine or_congr_right ⟨?_, ?_⟩
  · rintro ⟨self, setup, test, teardown, hmade, hsetup, htest, hteardown, houtcome⟩
    exact ⟨self, _, hmade, follows_iff_tried.2 ⟨setup, test, teardown, rfl, hsetup, htest,
      hteardown⟩, Outcome.reports_iff.2 houtcome⟩
  · rintro ⟨self, log, hmade, hfollows, hreports⟩
    obtain ⟨setup, test, teardown, rfl, hsetup, htest, hteardown⟩ := follows_iff_tried.1 hfollows
    exact ⟨self, setup, test, teardown, hmade, hsetup, htest, hteardown,
      Outcome.reports_iff.1 hreports⟩

end TestBench.FixturePlan
