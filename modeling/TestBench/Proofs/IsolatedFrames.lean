import TestBench.Proofs.MachineSafety

/-!
Frames and instances are kept apart. No code is asked to be well formed or
linked here: whatever was loaded, an expression leaves the locals of its frame
as they were, and reaches the fields of the instance only through the calls of
its own methods that are written in it, each at most once and in their order. A
static call has an instance of its own. Statements write into slots and fields
that are there, so that frames keep their number of locals and instances their
type and their number of fields, however a run ends.
-/
namespace TestBench

namespace Code

mutual

/-- The calls of methods of the same instance in an expression, in the order of their evaluation. -/
def Expr.selfCalls : Expr → List (String × List Expr)
  | .constant _ | .local _ | .field _ => []
  | .unary _ operand => operand.selfCalls
  | .binary left _ right => left.selfCalls ++ right.selfCalls
  | .callSelf method arguments => exprsSelfCalls arguments ++ [(method, arguments)]
  | .callStatic _ arguments | .assertion _ arguments => exprsSelfCalls arguments

def exprsSelfCalls : List Expr → List (String × List Expr)
  | [] => []
  | e :: rest => e.selfCalls ++ exprsSelfCalls rest

end

end Code

namespace Machine

/-- The arguments of the call have come to values, in a frame with these locals, and the method
has taken the instance that they left to another state. -/
def CarriedOut (calls : Calls) (locals : List Value) (call : String × List Code.Expr)
    (x y : Instance) : Prop :=
  ∃ before args result, evalAll calls call.2 ⟨before, locals⟩ = some (.ok args, ⟨x, locals⟩) ∧
    calls.self call.1 args x = some (result, y)

/-- The instance goes from one state to another through some of these calls, in their order. -/
inductive Through (calls : Calls) (locals : List Value) :
    List (String × List Code.Expr) → Instance → Instance → Prop
  | done (x : Instance) : Through calls locals [] x x
  | leftOut {call : String × List Code.Expr} {rest : List (String × List Code.Expr)}
      {x y : Instance} : Through calls locals rest x y → Through calls locals (call :: rest) x y
  | carriedOut {call : String × List Code.Expr} {rest : List (String × List Code.Expr)}
      {x y z : Instance} : CarriedOut calls locals call x y → Through calls locals rest y z →
      Through calls locals (call :: rest) x z

namespace Through

variable {calls : Calls} {locals : List Value} {written later : List (String × List Code.Expr)}
  {x y z : Instance}

/-- All calls may be left out. -/
theorem refl (written : List (String × List Code.Expr)) (x : Instance) :
    Through calls locals written x x := by
  induction written with
  | nil => exact .done x
  | cons call rest ih => exact .leftOut ih

theorem trans (h : Through calls locals written x y) (h' : Through calls locals later y z) :
    Through calls locals (written ++ later) x z := by
  induction h with
  | done => exact h'
  | leftOut _ ih => exact .leftOut (ih h')
  | carriedOut hcall _ ih => exact .carriedOut hcall (ih h')

theorem eq_of_nil (h : Through calls locals [] x y) : y = x := by
  cases h
  rfl

/-- What every call of a method keeps is kept by any number of them. -/
theorem keeps {inv : Instance → Prop} {allowed : Fault → Prop} {good : Value → Prop}
    (hself : ∀ name args, Keeps inv allowed (calls.self name args) good)
    (h : Through calls locals written x y) (hx : inv x) : inv y := by
  induction h with
  | done => exact hx
  | leftOut _ ih => exact ih hx
  | carriedOut hcall _ ih =>
    obtain ⟨_, args, result, _, hrun⟩ := hcall
    exact ih (hself _ args _ hx result _ hrun).1

end Through

/-- Whatever comes of it, the computation leaves the locals as they were and takes the instance
through some of these calls and nothing else. -/
def GoesThrough {α : Type} (calls : Calls) (written : List (String × List Code.Expr))
    (r : Run Frame α) : Prop :=
  ∀ f result g, r f = some (result, g) →
    g.locals = f.locals ∧ Through calls f.locals written f.self g.self

namespace GoesThrough

variable {α β : Type} {calls : Calls} {written later : List (String × List Code.Expr)}

/-- A computation that only looks at the frame leaves out all calls. -/
theorem reading (written : List (String × List Code.Expr)) (look : Frame → Except Fault α) :
    GoesThrough calls written (do answer (look (← get))) := by
  intro f result g hrun
  cases hrun
  exact ⟨rfl, Through.refl written f.self⟩

theorem answer (written : List (String × List Code.Expr)) (r : Except Fault α) :
    GoesThrough calls written (answer r) := reading written fun _ => r

theorem pure (written : List (String × List Code.Expr)) (a : α) :
    GoesThrough calls written (pure a) := answer written (.ok a)

theorem bind {r : Run Frame α} {next : α → Run Frame β} (h : GoesThrough calls written r)
    (hnext : ∀ a, GoesThrough calls later (next a)) :
    GoesThrough calls (written ++ later) (r >>= next) := by
  intro f result g hrun
  rcases of_bind_run hrun with ⟨fault, hr, -⟩ | ⟨a, u, hr, hrest⟩
  · obtain ⟨hlocals, hself⟩ := h f _ g hr
    exact ⟨hlocals, hself.trans (Through.refl later g.self)⟩
  · obtain ⟨hlocals, hself⟩ := h f _ u hr
    obtain ⟨hlocals', hself'⟩ := hnext a u result g hrest
    rw [hlocals] at hself'
    exact ⟨hlocals'.trans hlocals, hself.trans hself'⟩

/-- Behind the last call nothing changes the frame. -/
theorem finish {r : Run Frame α} {next : α → Run Frame β} (h : GoesThrough calls written r)
    (hnext : ∀ a, GoesThrough calls [] (next a)) : GoesThrough calls written (r >>= next) :=
  List.append_nil written ▸ h.bind hnext

/-- Truth values are asked for on the way. -/
theorem test {r : Run Frame Value} {next : Bool → Run Frame β} (h : GoesThrough calls written r)
    (hnext : ∀ b, GoesThrough calls later (next b)) :
    GoesThrough calls (written ++ later) (do next (← Machine.answer (truth (← r)))) :=
  h.bind fun v => (answer [] (truth v)).bind hnext

end GoesThrough

section Expressions

variable {calls : Calls}

/-- The call of a method comes behind those in its arguments. -/
theorem callSelf_goesThrough (method : String) {arguments : List Code.Expr}
    {written : List (String × List Code.Expr)}
    (h : GoesThrough calls written (evalAll calls arguments)) :
    GoesThrough calls (written ++ [(method, arguments)])
      (eval calls (.callSelf method arguments)) := by
  intro f result g hrun
  rw [eval] at hrun
  rcases of_bind_run hrun with ⟨fault, hargs, -⟩ | ⟨args, u, hargs, hcall⟩
  · obtain ⟨hlocals, hself⟩ := h f _ g hargs
    exact ⟨hlocals, hself.trans (Through.refl _ g.self)⟩
  obtain ⟨x, locals⟩ := f
  obtain ⟨y, locals'⟩ := u
  obtain ⟨hlocals, hself⟩ := h _ _ _ hargs
  obtain rfl : locals' = locals := hlocals
  unfold onSelf at hcall
  split at hcall
  · next _ after hmethod =>
    cases hcall
    exact ⟨rfl, hself.trans (.carriedOut ⟨x, args, result, hargs, hmethod⟩ (.done after))⟩
  · cases hcall

theorem static_goesThrough (target : Code.Target) (args : List Value) :
    GoesThrough calls [] (calls.staticRun target args) := by
  intro f result g hrun
  obtain ⟨-, rfl⟩ := Calls.staticRun_eq_some.1 hrun
  exact ⟨rfl, .done g.self⟩

mutual

theorem eval_goesThrough : ∀ e : Code.Expr, GoesThrough calls e.selfCalls (eval calls e)
  | .constant value => GoesThrough.pure [] (Value.ofConstant value)
  | .local slot => GoesThrough.reading [] fun f => readSlot f.locals slot
  | .field index => GoesThrough.reading [] fun f => readSlot f.self.fields index
  | .unary op operand =>
    (eval_goesThrough operand).finish fun v => .answer [] (applyUnary op v)
  | .binary left op right => by
    have hleft := eval_goesThrough left
    have hright := eval_goesThrough right
    have hrest : GoesThrough calls right.selfCalls (do
        return Value.boolean (← answer (truth (← eval calls right)))) :=
      hright.finish fun v => (GoesThrough.answer [] (truth v)).finish fun b => .pure [] _
    by_cases hand : op = .and
    · subst hand
      refine hleft.test fun b => ?_
      cases b
      · exact .pure _ _
      · exact hrest
    · by_cases hor : op = .or
      · subst hor
        refine hleft.test fun b => ?_
        cases b
        · exact hrest
        · exact .pure _ _
      · rw [eval_binary calls left right hand hor]
        exact hleft.bind fun l => hright.finish fun r => .answer [] (applyBinary op l r)
  | .callSelf method arguments => callSelf_goesThrough method (evalAll_goesThrough arguments)
  | .callStatic target arguments =>
    (evalAll_goesThrough arguments).finish fun args => static_goesThrough target args
  | .assertion builtin arguments =>
    (evalAll_goesThrough arguments).finish fun args => .answer [] (runBuiltin builtin args)

theorem evalAll_goesThrough : ∀ es : List Code.Expr,
    GoesThrough calls (Code.exprsSelfCalls es) (evalAll calls es)
  | [] => GoesThrough.pure [] []
  | e :: rest =>
    (eval_goesThrough e).bind fun _ => (evalAll_goesThrough rest).finish fun _ => .pure [] _

end

/-- An expression without calls of the same instance leaves the whole frame as it was. -/
theorem eval_unchanged {e : Code.Expr} {f g : Frame} {result : Except Fault Value}
    (hnone : e.selfCalls = []) (hrun : eval calls e f = some (result, g)) : g = f := by
  obtain ⟨hlocals, hthrough⟩ := eval_goesThrough e f result g hrun
  rw [hnone] at hthrough
  obtain ⟨x, locals⟩ := f
  obtain ⟨y, locals'⟩ := g
  obtain rfl : locals' = locals := hlocals
  obtain rfl : y = x := hthrough.eq_of_nil
  rfl

/-- A static call ends where its arguments left the frame. -/
theorem eval_callStatic {target : Code.Target} {arguments : List Code.Expr} {f g : Frame}
    {result : Except Fault Value} :
    eval calls (.callStatic target arguments) f = some (result, g) ↔
      (∃ fault, evalAll calls arguments f = some (.error fault, g) ∧ result = .error fault) ∨
      ∃ args, evalAll calls arguments f = some (.ok args, g) ∧
        calls.static target args = some result := by
  constructor
  · intro hrun
    rw [eval] at hrun
    rcases of_bind_run hrun with hfault | ⟨args, u, hargs, hcall⟩
    · exact Or.inl hfault
    · obtain ⟨hstatic, rfl⟩ := Calls.staticRun_eq_some.1 hcall
      exact Or.inr ⟨args, hargs, hstatic⟩
  · rintro (⟨fault, hargs, rfl⟩ | ⟨args, hargs, hstatic⟩)
    · rw [eval, bind_run, hargs]
    · rw [eval, bind_run, hargs]
      exact Calls.staticRun_eq_some.2 ⟨hstatic, rfl⟩

end Expressions

/-- Every outcome on a state that satisfies the invariant leaves one that does. -/
abbrev Stays {σ α : Type} (inv : σ → Prop) (r : Run σ α) : Prop :=
  Keeps inv (fun _ => True) r fun _ => True

theorem settles_any {α : Type} (r : Except Fault α) :
    Settles (fun _ => True) (fun _ => True) r := by
  cases r <;> trivial

/-- Calls of its methods leave an instance with the type and the number of fields that it has. -/
def Calls.KeepFields (calls : Calls) (unit typeName : String) (fields : Nat) : Prop :=
  ∀ name args, Stays (HasFields unit typeName fields) (calls.self name args)

section Statements

variable {unit typeName : String} {fields slots : Nat} {calls : Calls}

theorem eval_stays (hcalls : calls.KeepFields unit typeName fields) (e : Code.Expr) :
    Stays (HasSlots unit typeName fields slots) (eval calls e) := by
  intro f hf result g hrun
  obtain ⟨hlocals, hthrough⟩ := eval_goesThrough e f result g hrun
  exact ⟨⟨hthrough.keeps hcalls hf.self, hlocals ▸ hf.locals_length⟩, settles_any result⟩

theorem condition_stays (hcalls : calls.KeepFields unit typeName fields) (e : Code.Expr) :
    Stays (HasSlots unit typeName fields slots) (condition calls e) :=
  Keeps.bind (eval_stays hcalls e) fun v _ => Keeps.answer (settles_any (truth v))

mutual

theorem exec_stays (hcalls : calls.KeepFields unit typeName fields) (turns : Nat) :
    ∀ s : Code.Stmt, Stays (HasSlots unit typeName fields slots) (exec calls turns s)
  | .setLocal _ value =>
    Keeps.bind (eval_stays hcalls value) fun v _ => writeLocal_keeps v fun _ => trivial
  | .setField _ value =>
    Keeps.bind (eval_stays hcalls value) fun v _ => writeField_keeps v fun _ => trivial
  | .return none => Keeps.pure trivial
  | .return (some value) => Keeps.bind (eval_stays hcalls value) fun _ _ => Keeps.pure trivial
  | .cond test body otherwise => by
    refine Keeps.bind (condition_stays hcalls test) fun b _ => ?_
    cases b
    · exact execAll_stays hcalls turns otherwise
    · exact execAll_stays hcalls turns body
  | .while test body =>
    Keeps.repeatWhile (condition_stays hcalls test) (execAll_stays hcalls turns body) turns
  | .expr value => Keeps.bind (eval_stays hcalls value) fun _ _ => Keeps.pure trivial

theorem execAll_stays (hcalls : calls.KeepFields unit typeName fields) (turns : Nat) :
    ∀ ss : List Code.Stmt, Stays (HasSlots unit typeName fields slots) (execAll calls turns ss)
  | [] => Keeps.pure trivial
  | s :: rest => by
    refine Keeps.bind (exec_stays hcalls turns s) fun v _ => ?_
    cases v
    · exact execAll_stays hcalls turns rest
    · exact Keeps.pure trivial

end

theorem setFields_stays (hcalls : calls.KeepFields unit typeName fields) (index : Nat)
    (inits : List Image.Field) :
    Stays (HasSlots unit typeName fields slots) (setFields calls index inits) := by
  induction inits generalizing index with
  | nil => exact Keeps.pure trivial
  | cons field rest ih =>
    refine Keeps.bind (eval_stays hcalls field.init) fun v _ => ?_
    refine Keeps.bind (Keeps.modify fun f hf => ?_) fun _ _ => ih (index + 1)
    exact ⟨⟨hf.self.unit_eq, hf.self.typeName_eq, List.length_set.trans hf.self.fields_length⟩,
      hf.locals_length⟩

end Statements

section Calls

variable {m : Machine} {unit typeName : String} {fields : Nat}

/-- A method keeps the type and the number of fields of its instance, with whatever code it has and
whatever type it was looked up in. -/
theorem callMethod_stays (fuel depth : Nat) (name : String) (args : List Value) :
    Stays (HasFields unit typeName fields) (m.callMethod fuel depth name args) := by
  -- A body calls methods with less fuel and one call deeper. That it calls types does not matter,
  -- since their instances are not the one that it runs on.
  induction fuel generalizing depth name args with
  | zero => exact Keeps.outOfFuel
  | succ fuel ih =>
    intro self hself result after hrun
    refine ⟨?_, settles_any result⟩
    rcases of_callMethod hrun with ⟨-, -, rfl⟩ | ⟨fault, -, -, rfl⟩ |
      ⟨method, outcome, f, -, -, hexec, -, rfl⟩
    · exact hself
    · exact hself
    · have hcalls : (m.callsAt fuel depth).KeepFields unit typeName fields := ih (depth + 1)
      exact (execAll_stays hcalls fuel method.body ⟨self, initialLocals method args⟩ ⟨hself, rfl⟩
        outcome f hexec).1.self

theorem callsAt_keepFields {fuel depth : Nat} :
    (m.callsAt fuel depth).KeepFields unit typeName fields := callMethod_stays fuel (depth + 1)

theorem construct_hasFields {fuel depth : Nat} {x : Instance}
    (h : m.construct fuel depth unit typeName = some (.ok x)) :
    ∃ t, m.typeDecl unit typeName = .ok t ∧ HasFields unit typeName t.fields.length x := by
  cases fuel with
  | zero => cases h
  | succ fuel =>
    rcases of_construct h with ⟨fault, -, hfault⟩ | ⟨t, outcome, f, htype, hset, hmade⟩
    · cases hfault
    have hcalls : (m.callsAt fuel depth).KeepFields unit typeName t.fields.length :=
      callsAt_keepFields
    have hf := (setFields_stays hcalls 0 t.fields
      ⟨⟨unit, typeName, List.replicate t.fields.length .nothing⟩, []⟩
      ⟨⟨rfl, rfl, List.length_replicate⟩, rfl⟩ outcome f hset).1
    cases outcome with
    | error fault => cases hmade
    | ok _ =>
      cases hmade
      exact ⟨t, htype, hf.self⟩

end Calls

/-- The instance has the unit, the type and the number of fields of another. -/
def Instance.ShapedAs (y x : Instance) : Prop :=
  HasFields x.unit x.typeName x.fields.length y

/-- The frame has an instance of that shape and as many locals as another. -/
def Frame.ShapedAs (g f : Frame) : Prop :=
  HasSlots f.self.unit f.self.typeName f.self.fields.length f.locals.length g

theorem Frame.shapedAs_refl (f : Frame) : f.ShapedAs f := ⟨⟨rfl, rfl, rfl⟩, rfl⟩

/-- However code ends, an expression leaves the locals alone, a static call depends on its arguments
only, and every instance keeps its unit, its type and its number of fields. -/
theorem frames_isolated (m : Machine) (fuel turns depth : Nat) :
    (∀ (e : Code.Expr) (f g : Frame) (result : Except Fault Value),
      eval (m.callsAt fuel depth) e f = some (result, g) →
        g.locals = f.locals ∧ g.self.ShapedAs f.self ∧
        Through (m.callsAt fuel depth) f.locals e.selfCalls f.self g.self ∧
        (e.selfCalls = [] → g = f)) ∧
    (∀ (target : Code.Target) (arguments : List Code.Expr) (f g : Frame)
        (result : Except Fault Value),
      eval (m.callsAt fuel depth) (.callStatic target arguments) f = some (result, g) ↔
        (∃ fault, evalAll (m.callsAt fuel depth) arguments f = some (.error fault, g) ∧
          result = .error fault) ∨
        ∃ args, evalAll (m.callsAt fuel depth) arguments f = some (.ok args, g) ∧
          (m.callsAt fuel depth).static target args = some result) ∧
    (∀ (s : Code.Stmt) (f g : Frame) (result : Except Fault (Option Value)),
      exec (m.callsAt fuel depth) turns s f = some (result, g) → g.ShapedAs f) ∧
    (∀ (ss : List Code.Stmt) (f g : Frame) (result : Except Fault (Option Value)),
      execAll (m.callsAt fuel depth) turns ss f = some (result, g) → g.ShapedAs f) ∧
    (∀ (name : String) (args : List Value) (x y : Instance) (result : Except Fault Value),
      m.callMethod fuel depth name args x = some (result, y) → y.ShapedAs x) ∧
    ∀ (unit typeName : String) (x : Instance),
      m.construct fuel depth unit typeName = some (.ok x) →
        ∃ t, m.typeDecl unit typeName = .ok t ∧ HasFields unit typeName t.fields.length x := by
  refine ⟨?_, ?_, ?_, ?_, ?_, ?_⟩
  · intro e f g result hrun
    obtain ⟨hlocals, hthrough⟩ := eval_goesThrough e f result g hrun
    have hshape := hthrough.keeps callsAt_keepFields f.shapedAs_refl.self
    exact ⟨hlocals, hshape, hthrough, fun hnone => eval_unchanged hnone hrun⟩
  · intro target arguments f g result
    exact eval_callStatic
  · intro s f g result hrun
    exact (exec_stays callsAt_keepFields turns s f f.shapedAs_refl result g hrun).1
  · intro ss f g result hrun
    exact (execAll_stays callsAt_keepFields turns ss f f.shapedAs_refl result g hrun).1
  · intro name args x y result hrun
    exact (callMethod_stays fuel depth name args x ⟨rfl, rfl, rfl⟩ result y hrun).1
  · intro unit typeName x hmade
    exact construct_hasFields hmade

def tally (count : Value) : Instance := ⟨"App", "Tally", [count]⟩

/-- A frame of a method of a tally, with one slot that is not in use. -/
def counting (count : Word) : Frame := ⟨tally (.integer count), [.nothing]⟩

/-- A type that counts, with a method that spoils the count before it fails. -/
def tallyMachine : Machine where
  entry := "App"
  images := [("App", ⟨"App", [], [⟨"Tally", [], [⟨"count", .constant (.integer .zero)⟩], [
    ⟨"step", 0, 0, [], [
      .setField 0 (.binary (.field 0) .add (.constant (.integer oneWord))),
      .return (some (.field 0))], 1⟩,
    ⟨"spoil", 1, 1, [], [
      .setField 0 (.local 0),
      .expr (.assertion .fail [.constant (.text "spoiled")])], 5⟩]⟩]⟩)]
  maxCallDepth := defaultCallDepth

def twoWord : Word := ⟨2, by decide, by decide⟩

/-- Has another tally spoiled with the next count. -/
def spoilOther : Code.Expr := .callStatic ⟨"App", "Tally", "spoil"⟩ [.callSelf "step" []]

def spoiled : Fault := .invocation "Tally.spoil" (.assertion "spoiled")

/-- A tally counts on the way to a fault in another one, which is spoiled in its place. One that is
spoiled itself still is a tally. -/
theorem frames_isolated_tally :
    eval (tallyMachine.callsAt 9 0) spoilOther (counting oneWord) =
      some (.error spoiled, counting twoWord) ∧
    (∃ g, eval (tallyMachine.callsAt 9 0) (.binary (.callSelf "step" []) .add spoilOther)
        (counting .zero) = some (.error spoiled, g) ∧
      g.locals = [.nothing] ∧ Through (tallyMachine.callsAt 9 0) [.nothing]
        [("step", []), ("step", [])] (tally (.integer .zero)) g.self) ∧
    (∃ g, exec (tallyMachine.callsAt 9 0) 9 (.setLocal 0 (.callSelf "step" [])) (counting .zero) =
      some (.ok none, g) ∧ g.ShapedAs (counting .zero)) ∧
    (∃ g, execAll (tallyMachine.callsAt 9 0) 9 [.setField 0 spoilOther, .return none]
      (counting .zero) = some (.error spoiled, g) ∧ g.ShapedAs (counting .zero)) ∧
    (∃ y, tallyMachine.callMethod 9 0 "spoil" [.boolean true] (tally .nothing) =
      some (.error (.assertion "spoiled"), y) ∧ y.ShapedAs (tally .nothing)) ∧
    ∃ x, tallyMachine.construct 9 0 "App" "Tally" = some (.ok x) ∧
      ∃ t, tallyMachine.typeDecl "App" "Tally" = .ok t ∧
        HasFields "App" "Tally" t.fields.length x := by
  obtain ⟨heval, hstatic, hexec, hexecAll, hcall, hmake⟩ := frames_isolated tallyMachine 9 9 0
  refine ⟨?_, ?_, ?_, ?_, ?_, ?_⟩
  · exact (hstatic _ _ _ _ _).2 (Or.inr ⟨[.integer twoWord], rfl, rfl⟩)
  · obtain ⟨hlocals, -, hthrough, -⟩ := heval (.binary (.callSelf "step" []) .add spoilOther)
      (counting .zero) (counting twoWord) (.error spoiled) rfl
    exact ⟨_, rfl, hlocals, hthrough⟩
  · have hrun : exec (tallyMachine.callsAt 9 0) 9 (.setLocal 0 (.callSelf "step" []))
        (counting .zero) =
      some (.ok none, ⟨tally (.integer oneWord), [.integer oneWord]⟩) := rfl
    exact ⟨_, hrun, hexec _ _ _ _ hrun⟩
  · have hrun : execAll (tallyMachine.callsAt 9 0) 9 [.setField 0 spoilOther, .return none]
        (counting .zero) = some (.error spoiled, counting oneWord) := rfl
    exact ⟨_, hrun, hexecAll _ _ _ _ hrun⟩
  · have hrun : tallyMachine.callMethod 9 0 "spoil" [.boolean true] (tally .nothing) =
        some (.error (.assertion "spoiled"), tally (.boolean true)) := rfl
    exact ⟨_, hrun, hcall _ _ _ _ _ hrun⟩
  · have hrun : tallyMachine.construct 9 0 "App" "Tally" =
        some (.ok (tally (.integer .zero))) := rfl
    exact ⟨_, hrun, hmake _ _ _ hrun⟩

end Machine

end TestBench
