import TestBench.Machine.Interpreter

/-!
Computations on a state, compared and bounded. One computation simulates
another through a view of its states if both end alike, with the same value or
fault and with states that agree, or both run out of fuel. A computation keeps
an invariant if every outcome on a good state is a good state together with a
value or a fault of the allowed kind. Both notions follow the structure of
programs, so that facts about machines come down to facts about single steps and
to what a machine finds under a name.
-/
namespace TestBench.Machine

variable {σ τ α β : Type}

theorem bind_run (r : Run σ α) (next : α → Run σ β) (s : σ) :
    (r >>= next) s = match r s with
      | none => none
      | some (.error fault, t) => some (.error fault, t)
      | some (.ok a, t) => next a t := by
  change (r s).bind (fun out => ExceptT.bindCont next out.1 out.2) = _
  rcases r s with _ | ⟨_ | a, t⟩ <;> rfl

/-- A sequence that has come to an end was stopped by a fault in its first part, or went on from
the value of that part. -/
theorem of_bind_run {r : Run σ α} {next : α → Run σ β} {s t : σ} {result : Except Fault β}
    (h : (r >>= next) s = some (result, t)) :
    (∃ fault, r s = some (.error fault, t) ∧ result = .error fault) ∨
      ∃ a u, r s = some (.ok a, u) ∧ next a u = some (result, t) := by
  rw [bind_run] at h
  rcases hr : r s with _ | ⟨fault | a, u⟩
  · rw [hr] at h
    cases h
  · rw [hr] at h
    cases h
    exact Or.inl ⟨fault, rfl, rfl⟩
  · rw [hr] at h
    exact Or.inr ⟨a, u, rfl, h⟩

theorem pure_run (a : α) (s : σ) : (pure a : Run σ α) s = some (.ok a, s) := rfl

theorem get_run (s : σ) : (get : Run σ σ) s = some (.ok s, s) := rfl

theorem modify_run (f : σ → σ) (s : σ) :
    (modify f : Run σ PUnit) s = some (.ok ⟨⟩, f s) := rfl

theorem answer_run (r : Except Fault α) (s : σ) : (answer r : Run σ α) s = some (r, s) := rfl

/-- One turn of a loop, as a computation in sequence. -/
theorem repeatWhile_succ (test : Run Frame Bool) (body : Run Frame (Option Value)) (fuel : Nat) :
    repeatWhile test body (fuel + 1) = do
      if ← test then
        match ← body with
        | some v => return some v
        | none => repeatWhile test body fuel
      else return none := by
  funext f
  simp only [repeatWhile, bind_run]
  rcases test f with _ | ⟨_ | b, g⟩
  · rfl
  · rfl
  cases b
  · rfl
  simp only [if_true, bind_run]
  rcases body g with _ | ⟨_ | v, g'⟩
  · rfl
  · rfl
  · cases v <;> rfl

/-- All operators but two evaluate both operands. -/
theorem eval_binary (calls : Calls) (left right : Code.Expr) {op : BinaryOp}
    (hand : op ≠ .and) (hor : op ≠ .or) :
    eval calls (.binary left op right) = (do
      let l ← eval calls left
      let r ← eval calls right
      answer (applyBinary op l r)) := by
  cases op <;> first | contradiction | rfl

theorem execAll_singleton (calls : Calls) (fuel : Nat) (s : Code.Stmt) :
    execAll calls fuel [s] = exec calls fuel s := by
  funext f
  rw [execAll, bind_run]
  rcases exec calls fuel s f with _ | ⟨_ | v, g⟩
  · rfl
  · rfl
  · cases v <;> rfl

theorem execAll_append (calls : Calls) (fuel : Nat) (first later : List Code.Stmt) :
    execAll calls fuel (first ++ later) = (do
      match ← execAll calls fuel first with
      | some v => return some v
      | none => execAll calls fuel later) := by
  induction first with
  | nil => rfl
  | cons s rest ih =>
    funext f
    rw [List.cons_append, execAll, ih, execAll]
    simp only [bind_run]
    rcases exec calls fuel s f with _ | ⟨_ | v, g⟩
    · rfl
    · rfl
    cases v
    · simp only [bind_run]
    · rfl

/-- The second computation does on the views of states what the first does on
the states themselves, down to the fault or the lack of fuel. -/
def Simulates (view : σ → τ) (r : Run σ α) (r' : Run τ α) : Prop :=
  ∀ s, r' (view s) = (r s).map fun out => (out.1, view out.2)

namespace Simulates

variable {view : σ → τ}

theorem pure (a : α) : Simulates view (pure a) (pure a) := fun _ => rfl

theorem answer (r : Except Fault α) : Simulates view (answer r) (answer r) := fun _ => rfl

theorem outOfFuel : Simulates view (outOfFuel : Run σ α) outOfFuel := fun _ => rfl

theorem bind {r : Run σ α} {r' : Run τ α} {next : α → Run σ β} {next' : α → Run τ β}
    (h : Simulates view r r') (hnext : ∀ a, Simulates view (next a) (next' a)) :
    Simulates view (r >>= next) (r' >>= next') := by
  intro s
  rw [bind_run, bind_run, h s]
  rcases r s with _ | ⟨_ | a, t⟩
  · rfl
  · rfl
  · exact hnext a t

theorem modify {f : σ → σ} {f' : τ → τ} (h : ∀ s, f' (view s) = view (f s)) :
    Simulates view (modify f) (modify f') := by
  intro s
  rw [modify_run, modify_run, h s]
  rfl

end Simulates

/-- The value is good or the fault is allowed. -/
def Settles (good : α → Prop) (allowed : Fault → Prop) : Except Fault α → Prop
  | .ok a => good a
  | .error fault => allowed fault

theorem Settles.mono {good good' : α → Prop} {allowed : Fault → Prop} {r : Except Fault α}
    (h : Settles good allowed r) (hgood : ∀ a, good a → good' a) : Settles good' allowed r := by
  cases r with
  | ok a => exact hgood a h
  | error fault => exact h

theorem Settles.map {good : α → Prop} {good' : β → Prop} {allowed : Fault → Prop}
    {r : Except Fault α} {f : α → β} (h : Settles good allowed r)
    (hgood : ∀ a, good a → good' (f a)) : Settles good' allowed (r.map f) := by
  cases r with
  | ok a => exact hgood a h
  | error fault => exact h

/-- From good states the computation ends in good states only, its values
satisfy `good` and its faults are allowed. -/
def Keeps (inv : σ → Prop) (allowed : Fault → Prop) (r : Run σ α) (good : α → Prop) : Prop :=
  ∀ s, inv s → ∀ result t, r s = some (result, t) → inv t ∧ Settles good allowed result

namespace Keeps

variable {inv : σ → Prop} {allowed : Fault → Prop} {good : α → Prop} {good' : β → Prop}

theorem pure {a : α} (h : good a) : Keeps inv allowed (pure a) good := by
  intro s hs result t hrun
  cases hrun
  exact ⟨hs, h⟩

theorem answer {r : Except Fault α} (h : Settles good allowed r) :
    Keeps inv allowed (answer r) good := by
  intro s hs result t hrun
  cases hrun
  exact ⟨hs, h⟩

theorem outOfFuel : Keeps inv allowed (outOfFuel : Run σ α) good := by
  intro s _ result t hrun
  cases hrun

theorem bind {r : Run σ α} {next : α → Run σ β} (h : Keeps inv allowed r good)
    (hnext : ∀ a, good a → Keeps inv allowed (next a) good') :
    Keeps inv allowed (r >>= next) good' := by
  intro s hs result t hrun
  rcases of_bind_run hrun with ⟨fault, hr, rfl⟩ | ⟨a, u, hr, hnextrun⟩
  · exact h s hs (.error fault) t hr
  · obtain ⟨hu, ha⟩ := h s hs (.ok a) u hr
    exact hnext a ha u hu result t hnextrun

theorem reading {f : σ → Except Fault α} (h : ∀ s, inv s → Settles good allowed (f s)) :
    Keeps inv allowed (do Machine.answer (f (← get))) good := by
  intro s hs result t hrun
  cases hrun
  exact ⟨hs, h s hs⟩

/-- What is computed from a state is written into it. -/
theorem updating {γ : Type} {read : σ → Except Fault γ} {write : γ → σ → σ}
    (h : ∀ s, inv s → Settles (fun x => inv (write x s)) allowed (read s)) :
    Keeps inv allowed (do
      let x ← Machine.answer (read (← get))
      modify (write x)
      return none : Run σ (Option β)) fun _ => True := by
  intro s hs result t hrun
  have hread := h s hs
  simp only [bind_run, get_run, answer_run, modify_run, pure_run] at hrun
  cases hx : read s with
  | error fault =>
    rw [hx] at hrun hread
    cases hrun
    exact ⟨hs, hread⟩
  | ok x =>
    rw [hx] at hrun hread
    cases hrun
    exact ⟨hread, trivial⟩

theorem modify {f : σ → σ} (h : ∀ s, inv s → inv (f s)) :
    Keeps inv allowed (modify f) fun _ => True := by
  intro s hs result t hrun
  cases hrun
  exact ⟨h s hs, trivial⟩

/-- A loop keeps what its test and its body keep. -/
theorem repeatWhile {inv : Frame → Prop} {test : Run Frame Bool} {body : Run Frame (Option Value)}
    (htest : Keeps inv allowed test fun _ => True) (hbody : Keeps inv allowed body fun _ => True)
    (fuel : Nat) : Keeps inv allowed (repeatWhile test body fuel) fun _ => True := by
  induction fuel with
  | zero => exact Keeps.outOfFuel
  | succ fuel ih =>
    rw [repeatWhile_succ]
    refine Keeps.bind htest fun b _ => ?_
    cases b
    · exact Keeps.pure trivial
    refine Keeps.bind hbody fun v _ => ?_
    cases v
    · exact ih
    · exact Keeps.pure trivial

end Keeps

section Lookups

variable {m : Machine} {unit typeName : String} {t : Image.TypeDecl}

theorem typeDecl_eq_ok : m.typeDecl unit typeName = .ok t ↔
    ∃ image, m.image? unit = some image ∧ image.type? typeName = some t := by
  unfold typeDecl
  cases himage : m.image? unit with
  | none => simp
  | some image => cases htype : image.type? typeName <;> simp [htype]

/-- In a type that is loaded, methods are found by their name and checked for their arity. -/
theorem methodFor_eq {x : Instance} (ht : m.typeDecl x.unit x.typeName = .ok t) (name : String)
    (count : Nat) : m.methodFor x name count = match t.method? name with
      | none => .error (.methodNotFound x.typeName name)
      | some method =>
        if method.arity = count then .ok method else .error (.arity name method.arity count) := by
  rw [methodFor, ht]
  rfl

theorem methodFor_eq_ok {x : Instance} {name : String} {count : Nat} {method : Image.Method} :
    m.methodFor x name count = .ok method ↔ ∃ t, m.typeDecl x.unit x.typeName = .ok t ∧
      t.method? name = some method ∧ method.arity = count := by
  constructor
  · intro h
    cases ht : m.typeDecl x.unit x.typeName with
    | error fault =>
      rw [methodFor, ht] at h
      cases h
    | ok t =>
      rw [methodFor_eq ht] at h
      split at h
      · cases h
      · next found hfound =>
        split at h
        · next harity =>
          obtain rfl := Except.ok.inj h
          exact ⟨t, rfl, hfound, harity⟩
        · cases h
  · rintro ⟨t, ht, hfound, harity⟩
    rw [methodFor_eq ht, hfound]
    exact if_pos harity

end Lookups

section Calls

/-- A call on a fresh instance, in a frame. -/
def Calls.staticRun (calls : Calls) (target : Code.Target) (args : List Value) :
    Run Frame Value :=
  match calls.static target args with
  | some result => answer result
  | none => outOfFuel

/-- A call on a fresh instance is not handed the frame. -/
theorem Calls.staticRun_eq_some {calls : Calls} {target : Code.Target} {args : List Value}
    {f g : Frame} {result : Except Fault Value} :
    calls.staticRun target args f = some (result, g) ↔
      calls.static target args = some result ∧ g = f := by
  unfold Calls.staticRun
  cases calls.static target args with
  | none => simp [outOfFuel]
  | some found => simp [answer_run, eq_comm]

/-- How code that runs at a depth of calls carries out its own calls, with so much fuel for each. -/
def callsAt (m : Machine) (fuel depth : Nat) : Calls :=
  ⟨m.callMethod fuel (depth + 1),
    staticCall (m.construct fuel (depth + 1)) (m.callMethod fuel (depth + 1))⟩

variable {m : Machine} {fuel depth : Nat}

/-- A call that has come to an end was too deep, had no method to run, or ran its body. -/
theorem of_callMethod {name : String} {args : List Value} {x y : Instance}
    {result : Except Fault Value}
    (h : m.callMethod (fuel + 1) depth name args x = some (result, y)) :
    (m.maxCallDepth ≤ depth ∧ result = .error (.callDepthExceeded m.maxCallDepth) ∧ y = x) ∨
    (∃ fault, m.methodFor x name args.length = .error fault ∧ result = .error fault ∧ y = x) ∨
    ∃ method outcome f, depth < m.maxCallDepth ∧ m.methodFor x name args.length = .ok method ∧
      execAll (m.callsAt fuel depth) fuel method.body ⟨x, initialLocals method args⟩ =
        some (outcome, f) ∧
      result = outcome.map (·.getD .nothing) ∧ y = f.self := by
  unfold callMethod at h
  split at h
  · next hdeep =>
    cases h
    exact Or.inl ⟨hdeep, rfl, rfl⟩
  · next hdeep =>
    refine Or.inr ?_
    cases hmethod : m.methodFor x name args.length with
    | error fault =>
      rw [hmethod] at h
      cases h
      exact Or.inl ⟨fault, rfl, rfl, rfl⟩
    | ok method =>
      simp only [hmethod] at h
      split at h
      · cases h
      · next fault f hexec =>
        cases h
        exact Or.inr ⟨method, .error fault, f, Nat.lt_of_not_le hdeep, rfl, hexec, rfl, rfl⟩
      · next v f hexec =>
        cases h
        exact Or.inr ⟨method, .ok v, f, Nat.lt_of_not_le hdeep, rfl, hexec, rfl, rfl⟩

/-- An attempt at a new instance that has come to an end had no type, or set the fields of a blank
one. -/
theorem of_construct {unit typeName : String} {result : Except Fault Instance}
    (h : m.construct (fuel + 1) depth unit typeName = some result) :
    (∃ fault, m.typeDecl unit typeName = .error fault ∧ result = .error fault) ∨
    ∃ t outcome f, m.typeDecl unit typeName = .ok t ∧
      setFields (m.callsAt fuel depth) 0 t.fields
        ⟨⟨unit, typeName, List.replicate t.fields.length .nothing⟩, []⟩ = some (outcome, f) ∧
      result = outcome.map fun _ => f.self := by
  unfold construct at h
  cases htype : m.typeDecl unit typeName with
  | error fault =>
    rw [htype] at h
    cases h
    exact Or.inl ⟨fault, rfl, rfl⟩
  | ok t =>
    simp only [htype] at h
    split at h
    · cases h
    · next fault f hset =>
      cases h
      exact Or.inr ⟨t, .error fault, f, rfl, hset, rfl⟩
    · next f hset =>
      cases h
      exact Or.inr ⟨t, .ok (), f, rfl, hset, rfl⟩

end Calls

end TestBench.Machine
