import TestBench.Machine.Fixture
import TestBench.Proofs.RelatedRuns

/-!
What more fuel changes: nothing but whether a run comes to its end. A run that
has an outcome has the same one with any larger amount of fuel, so two runs that
both end have ended alike. This follows the structure of programs, with the
calls that a program makes as one of its parts.
-/
namespace TestBench

namespace Machine

variable {σ α β : Type}

/-- Whatever outcome the first computation has, the second one has too. -/
def Extends (r r' : Run σ α) : Prop := ∀ s out, r s = some out → r' s = some out

namespace Extends

theorem refl (r : Run σ α) : Extends r r := fun _ _ h => h

theorem bind {r r' : Run σ α} {next next' : α → Run σ β} (h : Extends r r')
    (hnext : ∀ a, Extends (next a) (next' a)) : Extends (r >>= next) (r' >>= next') := by
  intro s out hrun
  rw [bind_run] at hrun ⊢
  cases hr : r s with
  | none =>
    rw [hr] at hrun
    cases hrun
  | some first =>
    rw [hr] at hrun
    rw [h s first hr]
    obtain ⟨result, t⟩ := first
    cases result with
    | error fault => exact hrun
    | ok a => exact hnext a t out hrun

theorem outOfFuel (r : Run σ α) : Extends Machine.outOfFuel r := by
  intro s out hrun
  cases hrun

theorem onSelf {r r' : Run Instance α} (h : Extends r r') :
    Extends (onSelf r) (onSelf r') := by
  intro f out hrun
  unfold Machine.onSelf at hrun ⊢
  cases hr : r f.self with
  | none =>
    rw [hr] at hrun
    cases hrun
  | some first =>
    rw [hr] at hrun
    rw [h f.self first hr]
    exact hrun

end Extends

/-- Whatever calls come to an end in the first way come to the same end in the second. -/
structure Calls.Extends (calls calls' : Calls) : Prop where
  self : ∀ name args, Machine.Extends (calls.self name args) (calls'.self name args)
  static : ∀ target args result,
    calls.static target args = some result → calls'.static target args = some result

/-- What comes to an end is extended by whatever comes to the same end. -/
theorem congruence_extends : Congruence fun _ _ r r' => Extends r r' where
  refl := Extends.refl
  bind := Extends.bind
  onSelf := Extends.onSelf

section Programs

variable {calls calls' : Calls}

theorem Calls.Extends.related (h : calls.Extends calls') :
    calls.Related (fun _ _ r r' => Machine.Extends r r') calls' := by
  refine ⟨h.self, fun target args => ?_⟩
  unfold Calls.staticRun
  cases hresult : calls.static target args with
  | none => exact Extends.outOfFuel _
  | some result =>
    rw [h.static target args result hresult]
    exact Extends.refl _

theorem loops_extend {fuel fuel' : Nat} (hle : fuel ≤ fuel') :
    LoopsRelated (fun _ _ r r' => Extends r r') fuel fuel' := by
  intro test test' body body' htest hbody
  induction fuel generalizing fuel' with
  | zero => exact Extends.outOfFuel _
  | succ fuel ih =>
    obtain ⟨fuel', rfl⟩ : ∃ k, fuel' = k + 1 := ⟨fuel' - 1, by omega⟩
    exact congruence_extends.turn htest hbody (ih (Nat.le_of_succ_le_succ hle))

theorem execAll_extends (h : calls.Extends calls') {fuel fuel' : Nat} (hle : fuel ≤ fuel')
    (ss : List Code.Stmt) : Extends (execAll calls fuel ss) (execAll calls' fuel' ss) :=
  execAll_related congruence_extends h.related (loops_extend hle) ss

theorem setFields_extends (h : calls.Extends calls') (index : Nat) (fields : List Image.Field) :
    Extends (setFields calls index fields) (setFields calls' index fields) :=
  setFields_related congruence_extends h.related index fields

end Programs

section Machines

variable {m : Machine}

theorem staticCall_extends {build build' : String → String → Option (Except Fault Instance)}
    {call call' : String → List Value → Run Instance Value}
    (hbuild : ∀ unit typeName result,
      build unit typeName = some result → build' unit typeName = some result)
    (hcall : ∀ name args, Extends (call name args) (call' name args)) (target : Code.Target)
    (args : List Value) (result : Except Fault Value)
    (h : staticCall build call target args = some result) :
    staticCall build' call' target args = some result := by
  unfold staticCall at h ⊢
  obtain ⟨made, hmade, h⟩ := Option.bind_eq_some_iff.1 h
  refine Option.bind_eq_some_iff.2 ⟨made, hbuild _ _ made hmade, ?_⟩
  cases made with
  | error cause => exact h
  | ok fresh =>
    obtain ⟨outcome, hrun, h⟩ := Option.bind_eq_some_iff.1 h
    exact Option.bind_eq_some_iff.2 ⟨outcome, hcall _ _ fresh outcome hrun, h⟩

/-- Calls and new instances that come to an end with the first amount of fuel come to the same
end with the second. -/
structure FuelExtends (m : Machine) (fuel fuel' : Nat) : Prop where
  call : ∀ depth name args,
    Extends (m.callMethod fuel depth name args) (m.callMethod fuel' depth name args)
  build : ∀ depth unit typeName result, m.construct fuel depth unit typeName = some result →
    m.construct fuel' depth unit typeName = some result

theorem FuelExtends.calls {fuel fuel' : Nat} (h : m.FuelExtends fuel fuel') (depth : Nat) :
    Calls.Extends
      ⟨m.callMethod fuel depth, staticCall (m.construct fuel depth) (m.callMethod fuel depth)⟩
      ⟨m.callMethod fuel' depth,
        staticCall (m.construct fuel' depth) (m.callMethod fuel' depth)⟩ where
  self := h.call depth
  static := staticCall_extends (h.build depth) (h.call depth)

theorem callMethod_extends {fuel fuel' : Nat} (h : m.FuelExtends fuel fuel') (hle : fuel ≤ fuel')
    (depth : Nat) (name : String) (args : List Value) :
    Extends (m.callMethod (fuel + 1) depth name args)
      (m.callMethod (fuel' + 1) depth name args) := by
  intro self out hrun
  unfold callMethod at hrun ⊢
  split at hrun
  · next hdepth =>
    rw [if_pos hdepth]
    exact hrun
  · next hdepth =>
    rw [if_neg hdepth]
    cases hmethod : m.methodFor self name args.length with
    | error fault =>
      rw [hmethod] at hrun
      exact hrun
    | ok method =>
      simp only [hmethod] at hrun ⊢
      have hbody := execAll_extends (h.calls (depth + 1)) hle method.body
        ⟨self, initialLocals method args⟩
      split at hrun
      · cases hrun
      · next fault f hexec =>
        rw [hbody _ hexec]
        exact hrun
      · next v f hexec =>
        rw [hbody _ hexec]
        exact hrun

theorem construct_extends {fuel fuel' : Nat} (h : m.FuelExtends fuel fuel') (depth : Nat)
    (unit typeName : String) (result : Except Fault Instance)
    (hrun : m.construct (fuel + 1) depth unit typeName = some result) :
    m.construct (fuel' + 1) depth unit typeName = some result := by
  unfold construct at hrun ⊢
  cases htype : m.typeDecl unit typeName with
  | error fault =>
    rw [htype] at hrun
    exact hrun
  | ok t =>
    simp only [htype] at hrun ⊢
    have hfields := setFields_extends (h.calls (depth + 1)) 0 t.fields
      ⟨⟨unit, typeName, List.replicate t.fields.length .nothing⟩, []⟩
    split at hrun
    · cases hrun
    · next fault f hset =>
      rw [hfields _ hset]
      exact hrun
    · next f hset =>
      rw [hfields _ hset]
      exact hrun

theorem fuelExtends {fuel fuel' : Nat} (hle : fuel ≤ fuel') : m.FuelExtends fuel fuel' := by
  induction fuel generalizing fuel' with
  | zero =>
    refine ⟨fun _ _ _ => ?_, ?_⟩
    · intro self out hrun
      cases hrun
    · intro depth unit typeName result hrun
      cases hrun
  | succ fuel ih =>
    obtain ⟨fuel', rfl⟩ : ∃ k, fuel' = k + 1 := ⟨fuel' - 1, by omega⟩
    have hless := ih (Nat.le_of_succ_le_succ hle)
    exact ⟨callMethod_extends hless (Nat.le_of_succ_le_succ hle), construct_extends hless⟩

theorem instantiate_extends {fuel fuel' : Nat} (hle : fuel ≤ fuel') {unit typeName : String}
    {result : Except Fault Instance} (h : m.instantiate fuel unit typeName = some result) :
    m.instantiate fuel' unit typeName = some result :=
  (fuelExtends hle).build 0 unit typeName result h

theorem invoke_extends {fuel fuel' : Nat} (hle : fuel ≤ fuel') {self : Instance}
    {method : String} {out : Except Fault Value × Instance}
    (h : m.invoke fuel self method = some out) : m.invoke fuel' self method = some out := by
  unfold invoke at h ⊢
  obtain ⟨first, hcall, h⟩ := Option.bind_eq_some_iff.1 h
  exact Option.bind_eq_some_iff.2 ⟨first, (fuelExtends hle).call 0 method [] self first hcall, h⟩

end Machines

end Machine

namespace FixturePlan

variable {m : Machine} {fuel fuel' : Nat}

theorem attempt_extends (hle : fuel ≤ fuel') {stage : Stage} {method : Option String}
    {state out : Outcome × Machine.Instance}
    (h : attempt m fuel stage method state = some out) :
    attempt m fuel' stage method state = some out := by
  unfold attempt at h ⊢
  cases method with
  | none => exact h
  | some name =>
    obtain ⟨first, hinvoke, h⟩ := Option.bind_eq_some_iff.1 h
    exact Option.bind_eq_some_iff.2 ⟨first, Machine.invoke_extends hle hinvoke, h⟩

theorem run_extends (hle : fuel ≤ fuel') {plan : FixturePlan} {outcome : Outcome}
    (h : plan.run m fuel = some outcome) : plan.run m fuel' = some outcome := by
  unfold run at h ⊢
  obtain ⟨made, hmade, h⟩ := Option.bind_eq_some_iff.1 h
  refine Option.bind_eq_some_iff.2 ⟨made, Machine.instantiate_extends hle hmade, ?_⟩
  cases made with
  | error fault => exact h
  | ok self =>
    obtain ⟨afterSetup, hsetup, h⟩ := Option.bind_eq_some_iff.1 h
    refine Option.bind_eq_some_iff.2 ⟨afterSetup, attempt_extends hle hsetup, ?_⟩
    obtain ⟨afterTest, htest, h⟩ := Option.bind_eq_some_iff.1 h
    refine Option.bind_eq_some_iff.2 ⟨afterTest, attempt_extends hle htest, ?_⟩
    obtain ⟨afterTeardown, hteardown, h⟩ := Option.bind_eq_some_iff.1 h
    exact Option.bind_eq_some_iff.2 ⟨afterTeardown, attempt_extends hle hteardown, h⟩

/-- Two runs of a test that come to an end come to the same one. -/
theorem run_unique {plan : FixturePlan} {outcome outcome' : Outcome}
    (h : plan.run m fuel = some outcome) (h' : plan.run m fuel' = some outcome') :
    outcome = outcome' := by
  have hmore := run_extends (Nat.le_max_left fuel fuel') h
  have hmore' := run_extends (Nat.le_max_right fuel fuel') h'
  exact Option.some.inj (hmore.symm.trans hmore')

end FixturePlan

end TestBench
