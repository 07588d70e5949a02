import TestBench.Proofs.StateRuns

/-!
Relations between computations that follow the structure of programs. If every
computation is related to itself, and computations in sequence are related as
soon as their parts are, then a program is related to itself under any two ways
to carry out its calls that are related. So what a relation says about two runs
of a program is known as soon as it is known about its calls and its loops.
-/
namespace TestBench.Machine

/-- A relation that the parts of a computation hand on to the whole. -/
structure Congruence (Rel : ∀ σ α : Type, Run σ α → Run σ α → Prop) : Prop where
  refl : ∀ {σ α : Type} (r : Run σ α), Rel σ α r r
  bind : ∀ {σ α β : Type} {r r' : Run σ α} {next next' : α → Run σ β}, Rel σ α r r' →
    (∀ a, Rel σ β (next a) (next' a)) → Rel σ β (r >>= next) (r' >>= next')
  onSelf : ∀ {α : Type} {r r' : Run Instance α}, Rel Instance α r r' →
    Rel Frame α (onSelf r) (onSelf r')

/-- Every call that is carried out in the first way is related to the one in the second. -/
structure Calls.Related (Rel : ∀ σ α : Type, Run σ α → Run σ α → Prop) (calls calls' : Calls) :
    Prop where
  self : ∀ name args, Rel Instance Value (calls.self name args) (calls'.self name args)
  static : ∀ target args,
    Rel Frame Value (calls.staticRun target args) (calls'.staticRun target args)

/-- Loops of related tests and bodies are related, with so much fuel for the turns of each. -/
def LoopsRelated (Rel : ∀ σ α : Type, Run σ α → Run σ α → Prop) (fuel fuel' : Nat) : Prop :=
  ∀ {test test' : Run Frame Bool} {body body' : Run Frame (Option Value)},
    Rel Frame Bool test test' → Rel Frame (Option Value) body body' →
      Rel Frame (Option Value) (repeatWhile test body fuel) (repeatWhile test' body' fuel')

section Programs

variable {Rel : ∀ σ α : Type, Run σ α → Run σ α → Prop} {calls calls' : Calls}
  {fuel fuel' : Nat}

/-- A turn of a loop is related to a turn if the turns that follow are. -/
theorem Congruence.turn (h : Congruence Rel) {test test' : Run Frame Bool}
    {body body' : Run Frame (Option Value)} (htest : Rel Frame Bool test test')
    (hbody : Rel Frame (Option Value) body body')
    (hnext : Rel Frame (Option Value) (repeatWhile test body fuel)
      (repeatWhile test' body' fuel')) :
    Rel Frame (Option Value) (repeatWhile test body (fuel + 1))
      (repeatWhile test' body' (fuel' + 1)) := by
  rw [repeatWhile_succ, repeatWhile_succ]
  refine h.bind htest fun b => ?_
  cases b
  · exact h.refl _
  refine h.bind hbody fun v => ?_
  cases v
  · exact hnext
  · exact h.refl _

theorem Congruence.loops (h : Congruence Rel) (fuel : Nat) : LoopsRelated Rel fuel fuel := by
  intro test test' body body' htest hbody
  induction fuel with
  | zero => exact h.refl _
  | succ fuel ih => exact h.turn htest hbody ih

mutual

theorem eval_related (h : Congruence Rel) (hcalls : calls.Related Rel calls') :
    ∀ e : Code.Expr, Rel Frame Value (eval calls e) (eval calls' e)
  | .constant _ => h.refl _
  | .local _ => h.refl _
  | .field _ => h.refl _
  | .unary _ operand => h.bind (eval_related h hcalls operand) fun _ => h.refl _
  | .binary left op right => by
    have hleft := eval_related h hcalls left
    have hright := eval_related h hcalls right
    by_cases hand : op = .and
    · subst hand
      refine h.bind hleft fun v => h.bind (h.refl _) fun b => ?_
      cases b
      · exact h.refl _
      · exact h.bind hright fun _ => h.refl _
    · by_cases hor : op = .or
      · subst hor
        refine h.bind hleft fun v => h.bind (h.refl _) fun b => ?_
        cases b
        · exact h.bind hright fun _ => h.refl _
        · exact h.refl _
      · rw [eval_binary calls left right hand hor, eval_binary calls' left right hand hor]
        exact h.bind hleft fun _ => h.bind hright fun _ => h.refl _
  | .callSelf method arguments =>
    h.bind (evalAll_related h hcalls arguments) fun args => h.onSelf (hcalls.self method args)
  | .callStatic target arguments =>
    h.bind (evalAll_related h hcalls arguments) fun args => hcalls.static target args
  | .assertion _ arguments => h.bind (evalAll_related h hcalls arguments) fun _ => h.refl _

theorem evalAll_related (h : Congruence Rel) (hcalls : calls.Related Rel calls') :
    ∀ es : List Code.Expr, Rel Frame (List Value) (evalAll calls es) (evalAll calls' es)
  | [] => h.refl _
  | e :: rest =>
    h.bind (eval_related h hcalls e) fun _ =>
      h.bind (evalAll_related h hcalls rest) fun _ => h.refl _

end

theorem condition_related (h : Congruence Rel) (hcalls : calls.Related Rel calls')
    (e : Code.Expr) : Rel Frame Bool (condition calls e) (condition calls' e) :=
  h.bind (eval_related h hcalls e) fun _ => h.refl _

mutual

theorem exec_related (h : Congruence Rel) (hcalls : calls.Related Rel calls')
    (hloops : LoopsRelated Rel fuel fuel') : ∀ s : Code.Stmt,
    Rel Frame (Option Value) (exec calls fuel s) (exec calls' fuel' s)
  | .setLocal _ value => h.bind (eval_related h hcalls value) fun _ => h.refl _
  | .setField _ value => h.bind (eval_related h hcalls value) fun _ => h.refl _
  | .return none => h.refl _
  | .return (some value) => h.bind (eval_related h hcalls value) fun _ => h.refl _
  | .cond test body otherwise => by
    refine h.bind (condition_related h hcalls test) fun b => ?_
    cases b
    · exact execAll_related h hcalls hloops otherwise
    · exact execAll_related h hcalls hloops body
  | .while test body =>
    hloops (condition_related h hcalls test) (execAll_related h hcalls hloops body)
  | .expr value => h.bind (eval_related h hcalls value) fun _ => h.refl _

theorem execAll_related (h : Congruence Rel) (hcalls : calls.Related Rel calls')
    (hloops : LoopsRelated Rel fuel fuel') : ∀ ss : List Code.Stmt,
    Rel Frame (Option Value) (execAll calls fuel ss) (execAll calls' fuel' ss)
  | [] => h.refl _
  | s :: rest => by
    refine h.bind (exec_related h hcalls hloops s) fun v => ?_
    cases v
    · exact execAll_related h hcalls hloops rest
    · exact h.refl _

end

theorem setFields_related (h : Congruence Rel) (hcalls : calls.Related Rel calls') (index : Nat)
    (fields : List Image.Field) :
    Rel Frame Unit (setFields calls index fields) (setFields calls' index fields) := by
  induction fields generalizing index with
  | nil => exact h.refl _
  | cons field rest ih =>
    refine h.bind (eval_related h hcalls field.init) fun v => ?_
    exact h.bind (h.refl _) fun _ => ih (index + 1)

end Programs

end TestBench.Machine
