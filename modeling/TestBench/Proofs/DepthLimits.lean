import TestBench.Proofs.MoreFuel

/-!
What another limit on the depth of calls changes: nothing but where a run is cut
off. Two runs of the same code with different limits go the same way up to a
call that only the larger limit allows; there the run with the smaller limit
ends with a fault, and nothing in a program can catch a fault or ask for the
limit. So a run that was not cut off is the same with any larger limit.
-/
namespace TestBench.Machine

variable {σ α β : Type} {limit limit' : Nat}

/-- The fault says that calls were too deep for this limit, whoever it was passed on by. -/
def Fault.Exceeds (limit : Nat) (fault : Fault) : Prop := fault.root = .callDepthExceeded limit

theorem Fault.Exceeds.invocation {cause : Fault} (h : cause.Exceeds limit) (target : String) :
    (Fault.invocation target cause).Exceeds limit := h

/-- The two computations go the same way, or the first is cut off at the limit. -/
def CutsOff (limit : Nat) (r r' : Run σ α) : Prop :=
  ∀ s, r s = r' s ∨ ∃ fault t, r s = some (.error fault, t) ∧ fault.Exceeds limit

namespace CutsOff

theorem refl (r : Run σ α) : CutsOff limit r r := fun _ => Or.inl rfl

/-- A computation that was cut off is not gone on with. -/
theorem bind {r r' : Run σ α} {next next' : α → Run σ β} (h : CutsOff limit r r')
    (hnext : ∀ a, CutsOff limit (next a) (next' a)) :
    CutsOff limit (r >>= next) (r' >>= next') := by
  intro s
  rw [bind_run, bind_run]
  rcases h s with hsame | ⟨fault, t, hcut, hfault⟩
  · rw [hsame]
    cases hr : r' s with
    | none => exact Or.inl rfl
    | some first =>
      obtain ⟨result, t⟩ := first
      cases result with
      | error fault => exact Or.inl rfl
      | ok a => exact hnext a t
  · rw [hcut]
    exact Or.inr ⟨fault, t, rfl, hfault⟩

theorem onSelf {r r' : Run Instance α} (h : CutsOff limit r r') :
    CutsOff limit (onSelf r) (onSelf r') := by
  intro f
  unfold Machine.onSelf
  rcases h f.self with hsame | ⟨fault, self, hcut, hfault⟩
  · rw [hsame]
    exact Or.inl rfl
  · rw [hcut]
    exact Or.inr ⟨fault, { f with self }, rfl, hfault⟩

end CutsOff

theorem congruence_cutsOff (limit : Nat) : Congruence fun _ _ r r' => CutsOff limit r r' where
  refl := CutsOff.refl
  bind := CutsOff.bind
  onSelf := CutsOff.onSelf

/-- The two answers are the same, or the first is a fault at the limit. -/
def AnswerCutsOff (limit : Nat) (answer answer' : Option (Except Fault α)) : Prop :=
  answer = answer' ∨ ∃ fault, answer = some (.error fault) ∧ fault.Exceeds limit

/-- The machine with this limit on the depth of calls. -/
def limited (m : Machine) (limit : Nat) : Machine := { m with maxCallDepth := limit }

section Calls

variable {m : Machine} {fuel depth : Nat}

theorem calls_cutOff {calls calls' : Calls}
    (hself : ∀ name args, CutsOff limit (calls.self name args) (calls'.self name args))
    (hstatic : ∀ target args,
      AnswerCutsOff limit (calls.static target args) (calls'.static target args)) :
    calls.Related (fun _ _ r r' => CutsOff limit r r') calls' := by
  refine ⟨hself, fun target args f => ?_⟩
  unfold Calls.staticRun
  rcases hstatic target args with hsame | ⟨fault, hcut, hfault⟩
  · rw [hsame]
    exact Or.inl rfl
  · rw [hcut]
    exact Or.inr ⟨fault, f, rfl, hfault⟩

/-- A fault at the limit is passed on by calls of other instances. -/
theorem staticCall_cutOff {build build' : String → String → Option (Except Fault Instance)}
    {call call' : String → List Value → Run Instance Value}
    (hbuild : ∀ unit typeName, AnswerCutsOff limit (build unit typeName) (build' unit typeName))
    (hcall : ∀ name args, CutsOff limit (call name args) (call' name args))
    (target : Code.Target) (args : List Value) :
    AnswerCutsOff limit (staticCall build call target args)
      (staticCall build' call' target args) := by
  unfold staticCall
  rcases hbuild target.unit target.typeName with hsame | ⟨fault, hcut, hfault⟩
  · rw [hsame]
    cases hmade : build' target.unit target.typeName with
    | none => exact Or.inl rfl
    | some made =>
      cases made with
      | error fault => exact Or.inl rfl
      | ok fresh =>
        simp only [Option.bind_eq_bind, Option.bind_some]
        rcases hcall target.method args fresh with hsame | ⟨fault, after, hcut, hfault⟩
        · rw [hsame]
          exact Or.inl rfl
        · rw [hcut]
          exact Or.inr ⟨_, rfl, hfault.invocation _⟩
  · rw [hcut]
    exact Or.inr ⟨_, rfl, hfault.invocation _⟩

/-- With so much fuel, calls and new instances go the same way under both limits unless they are
cut off at the first. -/
structure LimitCutsOff (m : Machine) (limit limit' fuel : Nat) : Prop where
  call : ∀ depth name args, CutsOff limit ((m.limited limit).callMethod fuel depth name args)
    ((m.limited limit').callMethod fuel depth name args)
  build : ∀ depth unit typeName,
    AnswerCutsOff limit ((m.limited limit).construct fuel depth unit typeName)
      ((m.limited limit').construct fuel depth unit typeName)

theorem LimitCutsOff.related (h : m.LimitCutsOff limit limit' fuel) (depth : Nat) :
    Calls.Related (fun _ _ r r' => CutsOff limit r r')
      ⟨(m.limited limit).callMethod fuel depth, staticCall
        ((m.limited limit).construct fuel depth) ((m.limited limit).callMethod fuel depth)⟩
      ⟨(m.limited limit').callMethod fuel depth, staticCall
        ((m.limited limit').construct fuel depth) ((m.limited limit').callMethod fuel depth)⟩ :=
  calls_cutOff (h.call depth) (staticCall_cutOff (h.build depth) (h.call depth))

/-- Both limits are compared with the same depth, and the larger one allows what the smaller one
does. -/
theorem callMethod_cutOff (hle : limit ≤ limit') (h : m.LimitCutsOff limit limit' fuel)
    (depth : Nat) (name : String) (args : List Value) :
    CutsOff limit ((m.limited limit).callMethod (fuel + 1) depth name args)
      ((m.limited limit').callMethod (fuel + 1) depth name args) := by
  intro self
  unfold callMethod
  by_cases hdepth : limit ≤ depth
  · have hcut : (m.limited limit).maxCallDepth ≤ depth := hdepth
    rw [if_pos hcut]
    exact Or.inr ⟨.callDepthExceeded limit, self, rfl, rfl⟩
  · have hdepth' : ¬ limit' ≤ depth := by omega
    have hbelow : ¬ (m.limited limit).maxCallDepth ≤ depth := hdepth
    have hbelow' : ¬ (m.limited limit').maxCallDepth ≤ depth := hdepth'
    have hfor : (m.limited limit).methodFor self name args.length =
        (m.limited limit').methodFor self name args.length := rfl
    rw [if_neg hbelow, if_neg hbelow', hfor]
    cases hmethod : (m.limited limit').methodFor self name args.length with
    | error fault => exact Or.inl rfl
    | ok method =>
      have hbody := execAll_related (congruence_cutsOff limit) (h.related (depth + 1))
        ((congruence_cutsOff limit).loops fuel) method.body ⟨self, initialLocals method args⟩
      simp only
      rcases hbody with hsame | ⟨fault, f, hcut, hfault⟩
      · rw [hsame]
        exact Or.inl rfl
      · rw [hcut]
        exact Or.inr ⟨fault, f.self, rfl, hfault⟩

theorem construct_cutOff (h : m.LimitCutsOff limit limit' fuel) (depth : Nat)
    (unit typeName : String) :
    AnswerCutsOff limit ((m.limited limit).construct (fuel + 1) depth unit typeName)
      ((m.limited limit').construct (fuel + 1) depth unit typeName) := by
  unfold construct
  have htypes : (m.limited limit).typeDecl unit typeName =
      (m.limited limit').typeDecl unit typeName := rfl
  rw [htypes]
  cases htype : (m.limited limit').typeDecl unit typeName with
  | error fault => exact Or.inl rfl
  | ok t =>
    have hset := setFields_related (congruence_cutsOff limit) (h.related (depth + 1)) 0 t.fields
      ⟨⟨unit, typeName, List.replicate t.fields.length .nothing⟩, []⟩
    simp only
    rcases hset with hsame | ⟨fault, f, hcut, hfault⟩
    · rw [hsame]
      exact Or.inl rfl
    · rw [hcut]
      exact Or.inr ⟨fault, rfl, hfault⟩

theorem limitCutsOff (m : Machine) (hle : limit ≤ limit') (fuel : Nat) :
    m.LimitCutsOff limit limit' fuel := by
  induction fuel with
  | zero => exact ⟨fun _ _ _ _ => Or.inl rfl, fun _ _ _ => Or.inl rfl⟩
  | succ fuel ih => exact ⟨callMethod_cutOff hle ih, construct_cutOff ih⟩

theorem instantiate_cutOff (m : Machine) (hle : limit ≤ limit') (fuel : Nat)
    (unit typeName : String) :
    AnswerCutsOff limit ((m.limited limit).instantiate fuel unit typeName)
      ((m.limited limit').instantiate fuel unit typeName) :=
  (m.limitCutsOff hle fuel).build 0 unit typeName

theorem invoke_cutOff (m : Machine) (hle : limit ≤ limit') (fuel : Nat) (self : Instance)
    (method : String) :
    (m.limited limit).invoke fuel self method = (m.limited limit').invoke fuel self method ∨
      ∃ fault after, (m.limited limit).invoke fuel self method = some (.error fault, after) ∧
        fault.Exceeds limit := by
  unfold invoke
  rcases (m.limitCutsOff hle fuel).call 0 method [] self with hsame | ⟨fault, after, hcut, hfault⟩
  · rw [hsame]
    exact Or.inl rfl
  · rw [hcut]
    exact Or.inr ⟨_, after, rfl, hfault.invocation _⟩

end Calls

/-- The call of the method comes to an end, with this result and this instance afterwards. -/
def Invokes (m : Machine) (self : Instance) (method : String) (result : Except Fault Value)
    (after : Instance) : Prop := ∃ fuel, m.invoke fuel self method = some (result, after)

/-- Making an instance of the type comes to an end, with this result. -/
def Instantiates (m : Machine) (unit typeName : String) (result : Except Fault Instance) : Prop :=
  ∃ fuel, m.instantiate fuel unit typeName = some result

section Outcomes

variable {m : Machine}

/-- A call comes to one end only. -/
theorem Invokes.unique {self after after' : Instance} {method : String}
    {result result' : Except Fault Value} (h : m.Invokes self method result after)
    (h' : m.Invokes self method result' after') : result = result' ∧ after = after' := by
  obtain ⟨fuel, hrun⟩ := h
  obtain ⟨fuel', hrun'⟩ := h'
  have hmore := invoke_extends (Nat.le_max_left fuel fuel') hrun
  have hmore' := invoke_extends (Nat.le_max_right fuel fuel') hrun'
  exact Prod.mk.inj (Option.some.inj (hmore.symm.trans hmore'))

theorem Instantiates.unique {unit typeName : String} {result result' : Except Fault Instance}
    (h : m.Instantiates unit typeName result) (h' : m.Instantiates unit typeName result') :
    result = result' := by
  obtain ⟨fuel, hrun⟩ := h
  obtain ⟨fuel', hrun'⟩ := h'
  have hmore := instantiate_extends (Nat.le_max_left fuel fuel') hrun
  have hmore' := instantiate_extends (Nat.le_max_right fuel fuel') hrun'
  exact Option.some.inj (hmore.symm.trans hmore')

end Outcomes

/-- A limit on the depth of calls is only a cut-off: what ends under it, other than with a fault at
the limit, ends in the same way under any larger one. -/
theorem limit_cuts_off (m : Machine) {limit limit' : Nat} (hle : limit ≤ limit') :
    (∀ self method result after, (m.limited limit).Invokes self method result after →
      (∀ fault, result = .error fault → ¬ fault.Exceeds limit) →
        (m.limited limit').Invokes self method result after) ∧
    (∀ self method result after, (m.limited limit').Invokes self method result after →
      (m.limited limit).Invokes self method result after ∨
        ∃ fault other, (m.limited limit).Invokes self method (.error fault) other ∧
          fault.Exceeds limit) ∧
    (∀ unit typeName result, (m.limited limit).Instantiates unit typeName result →
      (∀ fault, result = .error fault → ¬ fault.Exceeds limit) →
        (m.limited limit').Instantiates unit typeName result) ∧
    ∀ unit typeName result, (m.limited limit').Instantiates unit typeName result →
      (m.limited limit).Instantiates unit typeName result ∨
        ∃ fault, (m.limited limit).Instantiates unit typeName (.error fault) ∧
          fault.Exceeds limit := by
  refine ⟨?_, ?_, ?_, ?_⟩
  · rintro self method result after ⟨fuel, hrun⟩ hwhole
    rcases m.invoke_cutOff hle fuel self method with hsame | ⟨fault, other, hcut, hfault⟩
    · exact ⟨fuel, hsame.symm.trans hrun⟩
    · have hresult : result = .error fault :=
        (Prod.mk.inj (Option.some.inj (hrun.symm.trans hcut))).1
      exact absurd hfault (hwhole fault hresult)
  · rintro self method result after ⟨fuel, hrun⟩
    rcases m.invoke_cutOff hle fuel self method with hsame | ⟨fault, other, hcut, hfault⟩
    · exact Or.inl ⟨fuel, hsame.trans hrun⟩
    · exact Or.inr ⟨fault, other, ⟨fuel, hcut⟩, hfault⟩
  · rintro unit typeName result ⟨fuel, hrun⟩ hwhole
    rcases m.instantiate_cutOff hle fuel unit typeName with hsame | ⟨fault, hcut, hfault⟩
    · exact ⟨fuel, hsame.symm.trans hrun⟩
    · exact absurd hfault (hwhole fault (Option.some.inj (hrun.symm.trans hcut)))
  · rintro unit typeName result ⟨fuel, hrun⟩
    rcases m.instantiate_cutOff hle fuel unit typeName with hsame | ⟨fault, hcut, hfault⟩
    · exact Or.inl ⟨fuel, hsame.trans hrun⟩
    · exact Or.inr ⟨fault, ⟨fuel, hcut⟩, hfault⟩

/-- A type whose instances start with the answer of a method, and whose other method calls itself
once. -/
def stairsMachine : Machine where
  entry := "App"
  images := [("App", ⟨"App", [], [⟨"Stairs", [], [⟨"climbed", .callSelf "start" []⟩], [
    ⟨"start", 0, 0, [], [.return (some (.constant (.boolean false)))], 1⟩,
    ⟨"climb", 0, 0, [], [
      .cond (.field 0) [.return none] [],
      .setField 0 (.constant (.boolean true)),
      .return (some (.callSelf "climb" []))], 2⟩]⟩]⟩)]
  maxCallDepth := defaultCallDepth

def stairs (climbed : Bool) : Instance := ⟨"App", "Stairs", [.boolean climbed]⟩

/-- Two calls deep is enough, and one is not. -/
theorem limit_cuts_off_stairs :
    (stairsMachine.limited 256).Invokes (stairs false) "climb" (.ok .nothing) (stairs true) ∧
    (∃ fault other, (stairsMachine.limited 1).Invokes (stairs false) "climb" (.error fault) other ∧
      fault.Exceeds 1) ∧
    (stairsMachine.limited 256).Instantiates "App" "Stairs" (.ok (stairs false)) ∧
    ∃ fault, (stairsMachine.limited 1).Instantiates "App" "Stairs" (.error fault) ∧
      fault.Exceeds 1 := by
  have hclimb : (stairsMachine.limited 2).Invokes (stairs false) "climb" (.ok .nothing)
      (stairs true) := ⟨5, rfl⟩
  have hmake : (stairsMachine.limited 2).Instantiates "App" "Stairs" (.ok (stairs false)) :=
    ⟨5, rfl⟩
  obtain ⟨hclimbs, -, hmakes, -⟩ := @limit_cuts_off stairsMachine 2 256 (by decide)
  obtain ⟨-, hcut, -, hcutMake⟩ := @limit_cuts_off stairsMachine 1 2 (by decide)
  refine ⟨hclimbs _ _ _ _ hclimb ?_, ?_, hmakes _ _ _ hmake ?_, ?_⟩
  · intro fault hfault
    cases hfault
  · have hstop : ∃ fault, (stairsMachine.limited 1).Invokes (stairs false) "climb"
        (.error fault) (stairs true) := ⟨_, 5, rfl⟩
    obtain ⟨fault, hstop⟩ := hstop
    refine (hcut _ _ _ _ hclimb).resolve_left fun hsame => ?_
    cases (hstop.unique hsame).1
  · intro fault hfault
    cases hfault
  · have hstop : ∃ fault, (stairsMachine.limited 1).Instantiates "App" "Stairs"
        (.error fault) := ⟨_, 5, rfl⟩
    obtain ⟨fault, hstop⟩ := hstop
    refine (hcutMake _ _ _ hmake).resolve_left fun hsame => ?_
    cases hstop.unique hsame

end TestBench.Machine
