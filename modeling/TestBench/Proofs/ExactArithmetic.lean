import TestBench.Proofs.StateRuns

/-!
What operators make of values. Arithmetic on integers is exact, and where the
exact result is no integer of 64 bits there is an overflow instead. Any two values
are compared for equality, texts are joined with whatever stands on the other
side, and truth values decide whether the right side is looked at. All other
operands do not fit, which is a fault of its own.
-/
namespace TestBench.Machine

/-- The number is an integer of 64 bits. -/
def InRange (n : Int) : Prop := -0x8000000000000000 ≤ n ∧ n ≤ 0x7fffffffffffffff

/-- The exact result where it is in range, and the fault where it is not. -/
def ExactOr (fault : Fault) (n : Int) (r : Except Fault Value) : Prop :=
  (InRange n → ∃ w : Word, w.val = n ∧ r = .ok (.integer w)) ∧ (¬InRange n → r = .error fault)

/-- In `a` there is `b` as often as `q` says, and `r` is left over: smaller than `b`, and with the
sign of `a` or zero. -/
structure DividesInto (a b q r : Int) : Prop where
  whole : a = q * b + r
  smaller : r.natAbs < b.natAbs
  sign : r = 0 ∨ r.sign = a.sign

/-- What the operators make of two integers. -/
structure ExactOn (a b : Word) : Prop where
  add : ExactOr (.overflow a .add b) (a.val + b.val) (applyBinary .add (.integer a) (.integer b))
  sub : ExactOr (.overflow a .sub b) (a.val - b.val) (applyBinary .sub (.integer a) (.integer b))
  mul : ExactOr (.overflow a .mul b) (a.val * b.val) (applyBinary .mul (.integer a) (.integer b))
  neg : ExactOr (.negationOverflow a) (-a.val) (applyUnary .neg (.integer a))
  byZero : b.val = 0 → applyBinary .div (.integer a) (.integer b) = .error .divideByZero ∧
    applyBinary .mod (.integer a) (.integer b) = .error .divideByZero
  div : b.val ≠ 0 → ExactOr (.overflow a .div b) (a.val.tdiv b.val)
    (applyBinary .div (.integer a) (.integer b))
  modOverflow : b.val ≠ 0 →
    (applyBinary .mod (.integer a) (.integer b) = .error (.overflow a .mod b) ↔
      applyBinary .div (.integer a) (.integer b) = .error (.overflow a .div b))
  mod : b.val ≠ 0 → ∀ q : Word, applyBinary .div (.integer a) (.integer b) = .ok (.integer q) →
    ∃ r : Word, applyBinary .mod (.integer a) (.integer b) = .ok (.integer r) ∧
      DividesInto a.val b.val q.val r.val
  lt : applyBinary .lt (.integer a) (.integer b) = .ok (.boolean (a.val < b.val))
  ltEq : applyBinary .ltEq (.integer a) (.integer b) = .ok (.boolean (a.val ≤ b.val))
  gt : applyBinary .gt (.integer a) (.integer b) = .ok (.boolean (a.val > b.val))
  gtEq : applyBinary .gtEq (.integer a) (.integer b) = .ok (.boolean (a.val ≥ b.val))

section Integers

variable (a b : Word) (op : BinaryOp)

theorem inRange_val : InRange a.val := by
  have hlower := a.lower
  have hupper := a.upper
  constructor <;> omega

theorem ofInt?_of_inRange {n : Int} (h : InRange n) : ∃ w, Word.ofInt? n = some w ∧ w.val = n := by
  obtain ⟨hlower, hupper⟩ := h
  have hsome : (Word.ofInt? n).isSome := Word.ofInt?_isSome.2 ⟨hlower, by omega⟩
  obtain ⟨w, hw⟩ := Option.isSome_iff_exists.1 hsome
  exact ⟨w, hw, Word.ofInt?_eq_some.1 hw⟩

theorem ofInt?_of_not_inRange {n : Int} (h : ¬InRange n) : Word.ofInt? n = none := by
  rw [Option.eq_none_iff_forall_not_mem]
  intro w hw
  have hval : w.val = n := Word.ofInt?_eq_some.1 hw
  apply h
  rw [← hval]
  exact inRange_val w

theorem exact_exactOr (n : Int) :
    ExactOr (.overflow a op b) n (exact a op b (Word.ofInt? n)) := by
  constructor
  · intro h
    obtain ⟨w, hw, hval⟩ := ofInt?_of_inRange h
    exact ⟨w, hval, by rw [hw]; rfl⟩
  · intro h
    rw [ofInt?_of_not_inRange h]
    rfl

theorem neg_exactOr : ExactOr (.negationOverflow a) (-a.val) (applyUnary .neg (.integer a)) := by
  constructor
  · intro h
    obtain ⟨w, hw, hval⟩ := ofInt?_of_inRange h
    refine ⟨w, hval, ?_⟩
    simp only [applyUnary, Word.neg, hw]
  · intro h
    simp only [applyUnary, Word.neg, ofInt?_of_not_inRange h]

variable {a b}

theorem dividesInto_tdiv {a b : Int} (hb : b ≠ 0) :
    DividesInto a b (a.tdiv b) (a.tmod b) where
  whole := (Int.tdiv_mul_add_tmod a b).symm
  smaller := by
    rw [Int.natAbs_tmod]
    have hpos : 0 < b.natAbs := Int.natAbs_pos.2 hb
    exact Nat.mod_lt _ hpos
  sign := by
    by_cases hdvd : b ∣ a
    · exact Or.inl (Int.tmod_eq_zero_of_dvd hdvd)
    · exact Or.inr (by rw [Int.sign_tmod, if_neg hdvd])

/-- A remainder is in range, because it is smaller than the divisor. -/
theorem inRange_tmod (hb : b.val ≠ 0) : InRange (a.val.tmod b.val) := by
  have hsmaller := (dividesInto_tdiv (a := a.val) hb).smaller
  have hlower := b.lower
  have hupper := b.upper
  constructor <;> omega

theorem applyBinary_div (hb : b.val ≠ 0) :
    applyBinary .div (.integer a) (.integer b) = exact a .div b (a.div b) := if_neg hb

theorem applyBinary_mod (hb : b.val ≠ 0) :
    applyBinary .mod (.integer a) (.integer b) = exact a .mod b (a.mod b) := if_neg hb

theorem applyBinary_mod_overflow_iff (hb : b.val ≠ 0) :
    applyBinary .mod (.integer a) (.integer b) = .error (.overflow a .mod b) ↔
      applyBinary .div (.integer a) (.integer b) = .error (.overflow a .div b) := by
  rw [applyBinary_div hb, applyBinary_mod hb, Word.mod]
  obtain ⟨r, hr, -⟩ := ofInt?_of_inRange (inRange_tmod (a := a) hb)
  -- Both fail where there is no quotient, and with a quotient neither does.
  cases hq : a.div b with
  | none => simp [exact]
  | some q => simp [exact, hr]

theorem applyBinary_mod_of_div {q : Word} (hb : b.val ≠ 0)
    (h : applyBinary .div (.integer a) (.integer b) = .ok (.integer q)) :
    ∃ r : Word, applyBinary .mod (.integer a) (.integer b) = .ok (.integer r) ∧
      DividesInto a.val b.val q.val r.val := by
  rw [applyBinary_div hb] at h
  obtain ⟨r, hr, hval⟩ := ofInt?_of_inRange (inRange_tmod (a := a) hb)
  cases hdiv : a.div b with
  | none =>
    rw [hdiv] at h
    cases h
  | some q' =>
    rw [hdiv] at h
    obtain rfl : q' = q := by simpa [exact] using h
    have hquotient : q'.val = a.val.tdiv b.val := Word.ofInt?_eq_some.1 hdiv
    refine ⟨r, ?_, ?_⟩
    · rw [applyBinary_mod hb, Word.mod, hdiv, Option.bind_some, hr]
      rfl
    · rw [hquotient, hval]
      exact dividesInto_tdiv hb

theorem exactOn (a b : Word) : ExactOn a b where
  add := exact_exactOr a b .add _
  sub := exact_exactOr a b .sub _
  mul := exact_exactOr a b .mul _
  neg := neg_exactOr a
  byZero h := ⟨if_pos h, if_pos h⟩
  div h := by
    rw [applyBinary_div h]
    exact exact_exactOr a b .div _
  modOverflow := applyBinary_mod_overflow_iff
  mod h _ := applyBinary_mod_of_div h
  lt := rfl
  ltEq := rfl
  gt := rfl
  gtEq := rfl

end Integers

/-- The values are of one kind and are built in the same way. -/
inductive Value.Same : Value → Value → Prop
  | integer {a b : Word} : a.val = b.val → Same (.integer a) (.integer b)
  | boolean {b : Bool} : Same (.boolean b) (.boolean b)
  | text {s s' : String} : s.toList = s'.toList → Same (.text s) (.text s')
  | nothing : Same .nothing .nothing

theorem Value.same_iff {v w : Value} : v.Same w ↔ v = w := by
  constructor
  · intro h
    cases h with
    | @integer a b hval =>
      cases a
      cases b
      cases hval
      rfl
    | boolean => rfl
    | text hchars => rw [String.toList_injective hchars]
    | nothing => rfl
  · rintro rfl
    cases v with
    | integer => exact .integer rfl
    | boolean => exact .boolean
    | text => exact .text rfl
    | nothing => exact .nothing

/-- Comparing for equality says whether the values are the same, and for inequality the opposite. -/
def ComparesStructure (v w : Value) : Prop :=
  ∃ same : Bool, (same = true ↔ v.Same w) ∧ applyBinary .eq v w = .ok (.boolean same) ∧
    applyBinary .notEq v w = .ok (.boolean !same)

theorem comparesStructure (v w : Value) : ComparesStructure v w := by
  refine ⟨decide (v = w), ?_, rfl, ?_⟩
  · rw [decide_eq_true_iff, Value.same_iff]
  · rw [← decide_not]
    rfl

/-- The operands that a unary operator takes. -/
def Takes₁ : UnaryOp → Value → Prop
  | .neg, v => ∃ n, v = .integer n
  | .not, v => ∃ b, v = .boolean b

/-- The operands that a binary operator takes, once both are there. The operators that may leave out
their right operand have been dealt with by then. -/
def Takes₂ : BinaryOp → Value → Value → Prop
  | .eq, _, _ | .notEq, _, _ => True
  | .add, v, w => isText v ∨ isText w ∨ ∃ a b, v = .integer a ∧ w = .integer b
  | .and, _, _ | .or, _, _ => False
  | _, v, w => ∃ a b, v = .integer a ∧ w = .integer b

theorem applyUnary_mismatch {op : UnaryOp} {v : Value} (h : ¬Takes₁ op v) :
    ∃ what, applyUnary op v = .error (.typeMismatch what) := by
  cases op with
  | neg =>
    cases v with
    | integer n => exact absurd ⟨n, rfl⟩ h
    | _ => exact ⟨_, rfl⟩
  | not =>
    cases v with
    | boolean b => exact absurd ⟨b, rfl⟩ h
    | _ => exact ⟨_, rfl⟩

theorem applyBinary_join {v w : Value} (h : isText v ∨ isText w) :
    applyBinary .add v w = .ok (.text (v.display ++ w.display)) := if_pos ⟨rfl, h⟩

/-- Operands that are not both integers are only compared or joined. -/
theorem applyBinary_of_not_integers {op : BinaryOp} {v w : Value} (heq : op ≠ .eq)
    (hnotEq : op ≠ .notEq) (hjoin : ¬(op = .add ∧ (isText v ∨ isText w)))
    (h : ¬∃ a b, v = .integer a ∧ w = .integer b) :
    applyBinary op v w = .error (.typeMismatch (.operands op v w)) := by
  unfold applyBinary
  split
  · exact absurd rfl heq
  · exact absurd rfl hnotEq
  rw [if_neg hjoin]
  split
  · next a b => exact absurd ⟨a, b, rfl, rfl⟩ h
  · rfl

theorem applyBinary_mismatch {op : BinaryOp} {v w : Value} (h : ¬Takes₂ op v w) :
    ∃ what, applyBinary op v w = .error (.typeMismatch what) := by
  by_cases hintegers : ∃ a b, v = .integer a ∧ w = .integer b
  · -- Of all operators, only those that have been dealt with take no integers.
    obtain ⟨a, b, rfl, rfl⟩ := hintegers
    cases op with
    | and => exact ⟨_, rfl⟩
    | or => exact ⟨_, rfl⟩
    | eq => exact absurd trivial h
    | notEq => exact absurd trivial h
    | add => exact absurd (Or.inr (Or.inr ⟨a, b, rfl, rfl⟩)) h
    | _ => exact absurd ⟨a, b, rfl, rfl⟩ h
  · refine ⟨_, applyBinary_of_not_integers ?_ ?_ ?_ hintegers⟩
    · rintro rfl
      exact h trivial
    · rintro rfl
      exact h trivial
    · rintro ⟨rfl, hv | hw⟩
      · exact h (Or.inl hv)
      · exact h (Or.inr (Or.inl hw))

section Evaluation

variable {calls : Calls} {left right : Code.Expr} {f f₁ f₂ : Frame} {v w : Value}

/-- A unary operator is applied to what its operand evaluates to. -/
theorem eval_unary (op : UnaryOp) (h : eval calls left f = some (.ok v, f₁)) :
    eval calls (.unary op left) f = some (applyUnary op v, f₁) := by
  rw [eval, bind_run, h]
  rfl

/-- A binary operator is applied to what its operands evaluate to, the left one first. -/
theorem eval_binary_values {op : BinaryOp} (hand : op ≠ .and) (hor : op ≠ .or)
    (h : eval calls left f = some (.ok v, f₁)) (h' : eval calls right f₁ = some (.ok w, f₂)) :
    eval calls (.binary left op right) f = some (applyBinary op v w, f₂) := by
  rw [eval_binary calls left right hand hor, bind_run, h]
  dsimp only
  rw [bind_run, h']
  rfl

/-- The right operand as the result. -/
def evalTruth (calls : Calls) (right : Code.Expr) : Run Frame Value := do
  return .boolean (← answer (truth (← eval calls right)))

theorem evalTruth_run (h : eval calls right f = some (.ok w, f₁)) :
    evalTruth calls right f = some ((truth w).map Value.boolean, f₁) := by
  rw [evalTruth, bind_run, h]
  dsimp only
  rw [bind_run, answer_run]
  rcases truth w with _ | _ <;> rfl

theorem eval_and (h : eval calls left f = some (.ok v, f₁)) :
    eval calls (.binary left .and right) f = match truth v with
      | .error fault => some (.error fault, f₁)
      | .ok false => some (.ok (.boolean false), f₁)
      | .ok true => evalTruth calls right f₁ := by
  rw [eval, bind_run, h]
  dsimp only
  rw [bind_run, answer_run]
  rcases truth v with _ | _ | _ <;> rfl

theorem eval_or (h : eval calls left f = some (.ok v, f₁)) :
    eval calls (.binary left .or right) f = match truth v with
      | .error fault => some (.error fault, f₁)
      | .ok true => some (.ok (.boolean true), f₁)
      | .ok false => evalTruth calls right f₁ := by
  rw [eval, bind_run, h]
  dsimp only
  rw [bind_run, answer_run]
  rcases truth v with _ | _ | _ <;> rfl

theorem truth_mismatch (h : ∀ b, v ≠ .boolean b) :
    truth v = .error (.typeMismatch (.condition v)) := by
  cases v with
  | boolean b => exact absurd rfl (h b)
  | _ => rfl

/-- The operator takes truth values only. If the left one is `settled`, that is the result and the
right operand is not evaluated; otherwise the right one is the result. -/
structure ShortCircuits (op : BinaryOp) (settled : Bool) : Prop where
  decided : ∀ calls left right f f₁, eval calls left f = some (.ok (.boolean settled), f₁) →
    eval calls (.binary left op right) f = some (.ok (.boolean settled), f₁)
  undecided : ∀ calls left right f f₁ f₂ b, eval calls left f = some (.ok (.boolean !settled), f₁) →
    eval calls right f₁ = some (.ok (.boolean b), f₂) →
      eval calls (.binary left op right) f = some (.ok (.boolean b), f₂)
  leftMismatch : ∀ calls left right f f₁ v, (∀ b, v ≠ .boolean b) →
    eval calls left f = some (.ok v, f₁) →
      eval calls (.binary left op right) f = some (.error (.typeMismatch (.condition v)), f₁)
  rightMismatch : ∀ calls left right f f₁ f₂ w, (∀ b, w ≠ .boolean b) →
    eval calls left f = some (.ok (.boolean !settled), f₁) →
      eval calls right f₁ = some (.ok w, f₂) →
        eval calls (.binary left op right) f = some (.error (.typeMismatch (.condition w)), f₂)

theorem shortCircuits_and : ShortCircuits .and false where
  decided _ _ _ _ _ h := eval_and h
  undecided _ _ _ _ _ _ _ h h' := (eval_and h).trans (evalTruth_run h')
  leftMismatch _ _ _ _ _ _ hv h := by
    rw [eval_and h, truth_mismatch hv]
  rightMismatch _ _ _ _ _ _ _ hw h h' := by
    rw [eval_and h]
    refine (evalTruth_run h').trans ?_
    rw [truth_mismatch hw]
    rfl

theorem shortCircuits_or : ShortCircuits .or true where
  decided _ _ _ _ _ h := eval_or h
  undecided _ _ _ _ _ _ _ h h' := (eval_or h).trans (evalTruth_run h')
  leftMismatch _ _ _ _ _ _ hv h := by
    rw [eval_or h, truth_mismatch hv]
  rightMismatch _ _ _ _ _ _ _ hw h h' := by
    rw [eval_or h]
    refine (evalTruth_run h').trans ?_
    rw [truth_mismatch hw]
    rfl

/-- Except for those that short-circuit, operators are applied to the values of their operands. -/
structure AppliesToValues : Prop where
  unary : ∀ calls op operand f f₁ v, eval calls operand f = some (.ok v, f₁) →
    eval calls (.unary op operand) f = some (applyUnary op v, f₁)
  binary : ∀ calls op left right f f₁ f₂ v w, op ≠ .and → op ≠ .or →
    eval calls left f = some (.ok v, f₁) → eval calls right f₁ = some (.ok w, f₂) →
      eval calls (.binary left op right) f = some (applyBinary op v w, f₂)

end Evaluation

/-- Integers give exact results or an overflow, any values are compared by their structure, texts
are joined, and truth values decide what is evaluated. All other operands are mismatches. -/
theorem operators_exact_or_fault :
    AppliesToValues ∧ (∀ a b, ExactOn a b) ∧ (∀ v w, ComparesStructure v w) ∧
      (∀ v w, isText v ∨ isText w → applyBinary .add v w = .ok (.text (v.display ++ w.display))) ∧
      (∀ b, applyUnary .not (.boolean b) = .ok (.boolean !b)) ∧
      ShortCircuits .and false ∧ ShortCircuits .or true ∧
      (∀ op v, ¬Takes₁ op v → ∃ what, applyUnary op v = .error (.typeMismatch what)) ∧
      ∀ op v w, ¬Takes₂ op v w → ∃ what, applyBinary op v w = .error (.typeMismatch what) := by
  refine ⟨⟨?_, ?_⟩, exactOn, comparesStructure, ?_, ?_, shortCircuits_and, shortCircuits_or, ?_, ?_⟩
  · intro calls op operand f f₁ v h
    exact eval_unary op h
  · intro calls op left right f f₁ f₂ v w hand hor h h'
    exact eval_binary_values hand hor h h'
  · intro v w h
    exact applyBinary_join h
  · intro b
    rfl
  · intro op v h
    exact applyUnary_mismatch h
  · intro op v w h
    exact applyBinary_mismatch h

end TestBench.Machine
