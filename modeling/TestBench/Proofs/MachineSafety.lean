import TestBench.Proofs.CodeConditions
import TestBench.Proofs.StateRuns

/-!
Linked code never goes wrong. If the code of every loaded image stays inside its
slots and fields, and every call has a loaded method of the right arity as its
target, then a frame keeps as many locals and an instance as many fields as its
method and type declare, through calls, faults and the setting of fields. What
remains are the faults of running programs: failed assertions, operands of the
wrong kind, overflow, division by zero and calls that are too deep.
-/
namespace TestBench.Machine

/-- Kinds of values that do not fit, as against slots that are not there. -/
def Mismatch.IsOfKinds : Mismatch → Prop
  | .slot _ | .operator _ => False
  | .condition _ | .negation _ | .complement _ | .operands .. | .assertion _ => True

/-- The root of the fault lies in what the program computes. -/
def Fault.Ordinary (fault : Fault) : Prop :=
  match fault.root with
  | .assertion _ | .overflow .. | .negationOverflow _ | .divideByZero | .callDepthExceeded _ => True
  | .typeMismatch what => what.IsOfKinds
  | .unitNotLoaded _ | .typeNotFound _ | .methodNotFound .. | .arity .. | .invocation .. => False

theorem Fault.Ordinary.invocation {fault : Fault} (h : fault.Ordinary) (target : String) :
    (Fault.invocation target fault).Ordinary := h

/-- The target of a call is a method of a loaded image with as many parameters. -/
def Offers (m : Machine) (target : Code.Target) (count : Nat) : Prop :=
  ∃ image, m.image? target.unit = some image ∧ image.Declares target.typeName target.method count

/-- All code that the machine has loaded is well formed and calls what is loaded. -/
def Linked (m : Machine) : Prop :=
  ∀ name image, m.image? name = some image → ∀ t ∈ image.types, t.WellFormed m.Offers

theorem linked_of_images {m : Machine}
    (h : ∀ e ∈ m.images, ∀ t ∈ e.2.types, t.WellFormed m.Offers) : m.Linked := by
  intro name image himage
  obtain ⟨e, hfind, rfl⟩ := Option.map_eq_some_iff.1 himage
  exact h e (List.mem_of_find?_eq_some hfind)

/-- The result of an operation is a value or an ordinary fault. -/
abbrev Regular {α : Type} (r : Except Fault α) : Prop := Settles (fun _ => True) Fault.Ordinary r

section Operators

theorem truth_regular (v : Value) : Regular (truth v) := by
  cases v <;> trivial

theorem applyUnary_regular (op : UnaryOp) (v : Value) : Regular (applyUnary op v) := by
  unfold applyUnary
  split
  · split <;> trivial
  all_goals trivial

theorem exact_regular (a b : Word) (op : BinaryOp) (result : Option Word) :
    Regular (exact a op b result) := by
  cases result <;> trivial

theorem applyToIntegers_regular {op : BinaryOp} (a b : Word) (hand : op ≠ .and) (hor : op ≠ .or) :
    Regular (applyToIntegers op a b) := by
  have hdivide : ∀ result : Option Word,
      Regular (if b.val = 0 then .error .divideByZero else exact a op b result) := by
    intro result
    split
    · trivial
    · exact exact_regular a b op result
  cases op with
  | add | sub | mul => exact exact_regular a b _ _
  | div | mod => exact hdivide _
  | lt | ltEq | gt | gtEq | eq | notEq => trivial
  | and => exact absurd rfl hand
  | or => exact absurd rfl hor

theorem applyBinary_regular {op : BinaryOp} (left right : Value) (hand : op ≠ .and)
    (hor : op ≠ .or) : Regular (applyBinary op left right) := by
  unfold applyBinary
  split
  · trivial
  · trivial
  split
  · trivial
  split
  · exact applyToIntegers_regular _ _ hand hor
  · trivial

theorem runBuiltin_regular (b : Builtin) (args : List Value) : Regular (runBuiltin b args) := by
  unfold runBuiltin
  cases b with
  | assert =>
    simp only
    split <;> trivial
  | assertEq | assertNe =>
    simp only
    split <;> trivial
  | fail => trivial

end Operators

/-- An instance of a type with so many fields. -/
structure HasFields (unit typeName : String) (fields : Nat) (x : Instance) : Prop where
  unit_eq : x.unit = unit
  typeName_eq : x.typeName = typeName
  fields_length : x.fields.length = fields

/-- A frame of a method with so many slots, on such an instance. -/
structure HasSlots (unit typeName : String) (fields slots : Nat) (f : Frame) : Prop where
  self : HasFields unit typeName fields f.self
  locals_length : f.locals.length = slots

/-- Calls of the methods of a type, and of all that the machine offers, keep
instances as they should be and fault only in the ordinary ways. -/
structure GoodCalls (m : Machine) (unit typeName : String) (t : Image.TypeDecl) (calls : Calls) :
    Prop where
  self : ∀ name args, (∃ method, t.method? name = some method ∧ method.arity = args.length) →
    Keeps (HasFields unit typeName t.fields.length) Fault.Ordinary (calls.self name args)
      fun _ => True
  static : ∀ target args, m.Offers target args.length → ∀ result,
    calls.static target args = some result → Regular result

section Slots

variable {unit typeName : String} {fields slots : Nat} {allowed : Fault → Prop}

/-- What is written over has as many slots as before. -/
theorem writeSlot_settles {xs : List Value} {index : Nat} (v : Value)
    (h : xs.length ≤ index → allowed (.typeMismatch (.slot index))) :
    Settles (fun ys => ys.length = xs.length) allowed (writeSlot xs index v) := by
  unfold writeSlot
  split
  · exact List.length_set
  · next hlt => exact h (Nat.le_of_not_lt hlt)

theorem writeLocal_keeps {slot : Nat} (v : Value)
    (h : slots ≤ slot → allowed (.typeMismatch (.slot slot))) :
    Keeps (HasSlots unit typeName fields slots) allowed (do
      let locals ← answer (writeSlot (← get).locals slot v)
      modify fun f => { f with locals }
      return none : Run Frame (Option Value)) fun _ => True := by
  refine Keeps.updating fun f hf => ?_
  refine (writeSlot_settles v (hf.locals_length.symm ▸ h)).mono fun locals hlength => ?_
  exact ⟨hf.self, hlength.trans hf.locals_length⟩

theorem writeField_keeps {index : Nat} (v : Value)
    (h : fields ≤ index → allowed (.typeMismatch (.slot index))) :
    Keeps (HasSlots unit typeName fields slots) allowed (do
      let fields ← answer (writeSlot (← get).self.fields index v)
      modify fun f => { f with self := { f.self with fields } }
      return none : Run Frame (Option Value)) fun _ => True := by
  refine Keeps.updating fun f hf => ?_
  refine (writeSlot_settles v (hf.self.fields_length.symm ▸ h)).mono fun fields hlength => ?_
  exact ⟨⟨hf.self.unit_eq, hf.self.typeName_eq, hlength.trans hf.self.fields_length⟩,
    hf.locals_length⟩

end Slots

section Code

variable {m : Machine} {unit typeName : String} {t : Image.TypeDecl} {calls : Calls} {slots : Nat}

/-- What code that meets the conditions of its type keeps. -/
abbrev KeepsFrame {α : Type} (unit typeName : String) (t : Image.TypeDecl) (slots : Nat)
    (r : Run Frame α) (good : α → Prop) : Prop :=
  Keeps (HasSlots unit typeName t.fields.length slots) Fault.Ordinary r good

theorem readSlot_regular {xs : List Value} {index : Nat} (hlt : index < xs.length) :
    Regular (readSlot xs index) := by
  rw [readSlot, List.getElem?_eq_getElem hlt]
  trivial

theorem onSelf_keeps {r : Run Instance Value}
    (h : Keeps (HasFields unit typeName t.fields.length) Fault.Ordinary r fun _ => True) :
    KeepsFrame unit typeName t slots (onSelf r) fun _ => True := by
  intro f hf result g hrun
  unfold onSelf at hrun
  split at hrun
  · next outcome self hr =>
    cases hrun
    obtain ⟨hself, houtcome⟩ := h f.self hf.self _ _ hr
    exact ⟨⟨hself, hf.locals_length⟩, houtcome⟩
  · cases hrun

theorem static_keeps {target : Code.Target} {args : List Value}
    (h : ∀ result, calls.static target args = some result → Regular result) :
    KeepsFrame unit typeName t slots (calls.staticRun target args) fun _ => True := by
  intro f hf result g hrun
  obtain ⟨hstatic, rfl⟩ := Calls.staticRun_eq_some.1 hrun
  exact ⟨hf, h result hstatic⟩

mutual

theorem eval_keeps (hcalls : GoodCalls m unit typeName t calls) :
    ∀ e : Code.Expr, e.Meets (t.condition m.Offers slots) →
      KeepsFrame unit typeName t slots (eval calls e) fun _ => True
  | .constant _, _ => Keeps.pure trivial
  | .local slot, h =>
    Keeps.reading fun _ hf => readSlot_regular (Nat.lt_of_lt_of_eq h hf.locals_length.symm)
  | .field index, h =>
    Keeps.reading fun _ hf => readSlot_regular (Nat.lt_of_lt_of_eq h hf.self.fields_length.symm)
  | .unary _ operand, h =>
    Keeps.bind (eval_keeps hcalls operand h) fun v _ => Keeps.answer (applyUnary_regular _ v)
  | .binary left op right, h => by
    have hleft := eval_keeps hcalls left h.1
    have hright := eval_keeps hcalls right h.2
    have htruth : ∀ v, KeepsFrame unit typeName t slots (answer (truth v)) fun _ => True :=
      fun v => Keeps.answer (truth_regular v)
    have hrest : KeepsFrame unit typeName t slots (do
        let v ← eval calls right
        return Value.boolean (← answer (truth v))) fun _ => True :=
      Keeps.bind hright fun v _ => Keeps.bind (htruth v) fun _ _ => Keeps.pure trivial
    by_cases hand : op = .and
    · subst hand
      refine Keeps.bind hleft fun v _ => Keeps.bind (htruth v) fun b _ => ?_
      cases b
      · exact Keeps.pure trivial
      · exact hrest
    · by_cases hor : op = .or
      · subst hor
        refine Keeps.bind hleft fun v _ => Keeps.bind (htruth v) fun b _ => ?_
        cases b
        · exact hrest
        · exact Keeps.pure trivial
      · rw [eval_binary calls left right hand hor]
        exact Keeps.bind hleft fun l _ => Keeps.bind hright fun r _ =>
          Keeps.answer (applyBinary_regular l r hand hor)
  | .callSelf method arguments, h => by
    refine Keeps.bind (evalAll_keeps hcalls arguments h.2) fun args hargs => ?_
    have hmethod := h.1
    rw [← hargs] at hmethod
    exact onSelf_keeps (hcalls.self method args hmethod)
  | .callStatic target arguments, h => by
    refine Keeps.bind (evalAll_keeps hcalls arguments h.2) fun args hargs => ?_
    have htarget : m.Offers target arguments.length := h.1
    rw [← hargs] at htarget
    exact static_keeps (hcalls.static target args htarget)
  | .assertion builtin arguments, h =>
    Keeps.bind (evalAll_keeps hcalls arguments h.2) fun args _ =>
      Keeps.answer (runBuiltin_regular builtin args)

/-- There are as many values as arguments. -/
theorem evalAll_keeps (hcalls : GoodCalls m unit typeName t calls) :
    ∀ es : List Code.Expr, Code.ExprsMeet (t.condition m.Offers slots) es →
      KeepsFrame unit typeName t slots (evalAll calls es) fun vs => vs.length = es.length
  | [], _ => Keeps.pure rfl
  | e :: rest, h =>
    Keeps.bind (eval_keeps hcalls e h.1) fun _ _ =>
      Keeps.bind (evalAll_keeps hcalls rest h.2) fun _ hlength =>
        Keeps.pure (by simpa using hlength)

end

theorem condition_keeps (hcalls : GoodCalls m unit typeName t calls) {e : Code.Expr}
    (h : e.Meets (t.condition m.Offers slots)) :
    KeepsFrame unit typeName t slots (condition calls e) fun _ => True :=
  Keeps.bind (eval_keeps hcalls e h) fun v _ => Keeps.answer (truth_regular v)

mutual

theorem exec_keeps (hcalls : GoodCalls m unit typeName t calls) (fuel : Nat) :
    ∀ s : Code.Stmt, s.Meets (t.condition m.Offers slots) →
      KeepsFrame unit typeName t slots (exec calls fuel s) fun _ => True
  | .setLocal slot value, h =>
    Keeps.bind (eval_keeps hcalls value h.2) fun v _ =>
      writeLocal_keeps v fun hle => absurd h.1 (Nat.not_lt.2 hle)
  | .setField index value, h =>
    Keeps.bind (eval_keeps hcalls value h.2) fun v _ =>
      writeField_keeps v fun hle => absurd h.1 (Nat.not_lt.2 hle)
  | .return none, _ => Keeps.pure trivial
  | .return (some value), h =>
    Keeps.bind (eval_keeps hcalls value h) fun _ _ => Keeps.pure trivial
  | .cond test body otherwise, h => by
    refine Keeps.bind (condition_keeps hcalls h.1) fun b _ => ?_
    cases b
    · exact execAll_keeps hcalls fuel otherwise h.2.2
    · exact execAll_keeps hcalls fuel body h.2.1
  | .while _ body, h =>
    Keeps.repeatWhile (condition_keeps hcalls h.1) (execAll_keeps hcalls fuel body h.2) fuel
  | .expr value, h => Keeps.bind (eval_keeps hcalls value h) fun _ _ => Keeps.pure trivial

theorem execAll_keeps (hcalls : GoodCalls m unit typeName t calls) (fuel : Nat) :
    ∀ ss : List Code.Stmt, Code.StmtsMeet (t.condition m.Offers slots) ss →
      KeepsFrame unit typeName t slots (execAll calls fuel ss) fun _ => True
  | [], _ => Keeps.pure trivial
  | s :: rest, h => by
    refine Keeps.bind (exec_keeps hcalls fuel s h.1) fun v _ => ?_
    cases v
    · exact execAll_keeps hcalls fuel rest h.2
    · exact Keeps.pure trivial

end

theorem setFields_keeps (hcalls : GoodCalls m unit typeName t calls) (index : Nat)
    (fields : List Image.Field)
    (h : ∀ f ∈ fields, f.init.Meets (t.condition m.Offers slots)) :
    KeepsFrame unit typeName t slots (setFields calls index fields) fun _ => True := by
  induction fields generalizing index with
  | nil => exact Keeps.pure trivial
  | cons field rest ih =>
    refine Keeps.bind (eval_keeps hcalls field.init (h field List.mem_cons_self)) fun v _ => ?_
    refine Keeps.bind (Keeps.modify ?_) fun _ _ =>
      ih (index + 1) fun f hf => h f (List.mem_cons_of_mem _ hf)
    intro f hf
    exact ⟨⟨hf.self.unit_eq, hf.self.typeName_eq, by simpa using hf.self.fields_length⟩,
      hf.locals_length⟩

end Code

section Calls

variable {m : Machine} {unit typeName : String} {t : Image.TypeDecl}

theorem type_wellFormed (hm : m.Linked) (h : m.typeDecl unit typeName = .ok t) :
    t.WellFormed m.Offers := by
  obtain ⟨image, himage, htype⟩ := typeDecl_eq_ok.1 h
  exact hm unit image himage t (List.mem_of_find?_eq_some htype)

theorem initialLocals_length {method : Image.Method} {args : List Value}
    (harity : method.arity = args.length) (hle : method.arity ≤ method.locals) :
    (initialLocals method args).length = method.locals := by
  rw [initialLocals, List.length_append, List.length_replicate]
  omega

/-- What calls with so much fuel keep, of every type that is loaded. -/
structure GoodFuel (m : Machine) (fuel : Nat) : Prop where
  call : ∀ depth unit typeName t, m.typeDecl unit typeName = .ok t → ∀ name args,
    (∃ method, t.method? name = some method ∧ method.arity = args.length) →
      Keeps (HasFields unit typeName t.fields.length) Fault.Ordinary
        (m.callMethod fuel depth name args) fun _ => True
  construct : ∀ depth unit typeName t, m.typeDecl unit typeName = .ok t → ∀ result,
    m.construct fuel depth unit typeName = some result →
      Settles (HasFields unit typeName t.fields.length) Fault.Ordinary result

theorem wrapped_regular {α : Type} {r : Except Fault α} (h : Regular r) (target : String) :
    Regular (wrapped target r) := by
  cases r with
  | ok a => trivial
  | error fault => exact Fault.Ordinary.invocation h target

theorem staticCall_regular {fuel : Nat} (h : GoodFuel m fuel) (depth : Nat) {target : Code.Target}
    {args : List Value} (htarget : m.Offers target args.length) {result : Except Fault Value}
    (hcall : staticCall (m.construct fuel depth) (m.callMethod fuel depth) target args =
      some result) : Regular result := by
  obtain ⟨image, himage, t, htype, hmethod⟩ := htarget
  have hdecl := typeDecl_eq_ok.2 ⟨image, himage, htype⟩
  unfold staticCall at hcall
  obtain ⟨made, hmade, hcall⟩ := Option.bind_eq_some_iff.1 hcall
  have hconstruct := h.construct depth _ _ t hdecl made hmade
  cases made with
  | error cause =>
    cases hcall
    exact Fault.Ordinary.invocation hconstruct _
  | ok fresh =>
    obtain ⟨⟨outcome, after⟩, hrun, hcall⟩ := Option.bind_eq_some_iff.1 hcall
    obtain ⟨_, houtcome⟩ :=
      h.call depth _ _ t hdecl target.method args hmethod fresh hconstruct outcome after hrun
    cases hcall
    exact wrapped_regular houtcome _

theorem goodCalls_of_goodFuel {fuel : Nat} (h : GoodFuel m fuel) (depth : Nat)
    (ht : m.typeDecl unit typeName = .ok t) :
    GoodCalls m unit typeName t ⟨m.callMethod fuel depth,
      staticCall (m.construct fuel depth) (m.callMethod fuel depth)⟩ where
  self := h.call depth unit typeName t ht
  static _ _ htarget _ := staticCall_regular h depth htarget

theorem callMethod_keeps (hm : m.Linked) {fuel : Nat} (h : GoodFuel m fuel) (depth : Nat)
    (ht : m.typeDecl unit typeName = .ok t) {name : String} {args : List Value}
    (hmethod : ∃ method, t.method? name = some method ∧ method.arity = args.length) :
    Keeps (HasFields unit typeName t.fields.length) Fault.Ordinary
      (m.callMethod (fuel + 1) depth name args) fun _ => True := by
  intro self hself result after hrun
  obtain ⟨method, hfound, harity⟩ := hmethod
  have hdecl : m.typeDecl self.unit self.typeName = .ok t := by
    rw [hself.unit_eq, hself.typeName_eq, ht]
  have hfor : m.methodFor self name args.length = .ok method :=
    methodFor_eq_ok.2 ⟨t, hdecl, hfound, harity⟩
  rcases of_callMethod hrun with ⟨-, rfl, rfl⟩ | ⟨fault, hfault, -, -⟩ |
    ⟨method', outcome, f, -, hmethod', hexec, rfl, rfl⟩
  · exact ⟨hself, trivial⟩
  · cases hfor.symm.trans hfault
  · obtain rfl : method = method' := Except.ok.inj (hfor.symm.trans hmethod')
    have hmem := List.mem_of_find?_eq_some hfound
    have hwell := type_wellFormed hm ht
    have hlocals := initialLocals_length harity (hwell.arity_le method hmem)
    have hcalls : GoodCalls m unit typeName t (m.callsAt fuel depth) :=
      goodCalls_of_goodFuel h (depth + 1) ht
    obtain ⟨hf, houtcome⟩ := execAll_keeps hcalls fuel method.body (hwell.bodies method hmem)
      ⟨self, initialLocals method args⟩ ⟨hself, hlocals⟩ outcome f hexec
    exact ⟨hf.self, houtcome.map fun _ _ => trivial⟩

theorem construct_keeps (hm : m.Linked) {fuel : Nat} (h : GoodFuel m fuel) (depth : Nat)
    (ht : m.typeDecl unit typeName = .ok t) {result : Except Fault Instance}
    (hrun : m.construct (fuel + 1) depth unit typeName = some result) :
    Settles (HasFields unit typeName t.fields.length) Fault.Ordinary result := by
  rcases of_construct hrun with ⟨fault, hfault, -⟩ | ⟨t', outcome, f, ht', hset, rfl⟩
  · cases ht.symm.trans hfault
  · obtain rfl : t = t' := Except.ok.inj (ht.symm.trans ht')
    have hcalls : GoodCalls m unit typeName t (m.callsAt fuel depth) :=
      goodCalls_of_goodFuel h (depth + 1) ht
    obtain ⟨hf, houtcome⟩ := setFields_keeps hcalls 0 t.fields (type_wellFormed hm ht).inits
      ⟨⟨unit, typeName, List.replicate t.fields.length .nothing⟩, []⟩
      ⟨⟨rfl, rfl, List.length_replicate⟩, rfl⟩ outcome f hset
    exact houtcome.map fun _ _ => hf.self

theorem goodFuel (hm : m.Linked) (fuel : Nat) : GoodFuel m fuel := by
  induction fuel with
  | zero =>
    refine ⟨fun _ _ _ _ _ _ _ _ => Keeps.outOfFuel, ?_⟩
    intro depth unit typeName t _ result hrun
    cases hrun
  | succ fuel ih =>
    refine ⟨fun depth _ _ _ ht _ _ hmethod => callMethod_keeps hm ih depth ht hmethod, ?_⟩
    intro depth unit typeName t ht result hrun
    exact construct_keeps hm ih depth ht hrun

end Calls

/-- The instances that are alive and the faults that were returned, after any number of new
instances of declared types and calls of their declared methods without parameters. -/
inductive Session (m : Machine) : List Instance → List Fault → Prop
  | start : Session m [] []
  | created {live : List Instance} {faults : List Fault} {fuel : Nat} {unit typeName : String}
      {t : Image.TypeDecl} {self : Instance} : Session m live faults →
      m.typeDecl unit typeName = .ok t →
      m.instantiate fuel unit typeName = some (.ok self) → Session m (live ++ [self]) faults
  | failed {live : List Instance} {faults : List Fault} {fuel : Nat} {unit typeName : String}
      {t : Image.TypeDecl} {fault : Fault} : Session m live faults →
      m.typeDecl unit typeName = .ok t →
      m.instantiate fuel unit typeName = some (.error fault) → Session m live (faults ++ [fault])
  | returned {live : List Instance} {faults : List Fault} {fuel index : Nat} {name : String}
      {method : Image.Method} {self after : Instance} {v : Value} : Session m live faults →
      live[index]? = some self → m.methodFor self name 0 = .ok method →
      m.invoke fuel self name = some (.ok v, after) → Session m (live.set index after) faults
  | faulted {live : List Instance} {faults : List Fault} {fuel index : Nat} {name : String}
      {method : Image.Method} {self after : Instance} {fault : Fault} : Session m live faults →
      live[index]? = some self → m.methodFor self name 0 = .ok method →
      m.invoke fuel self name = some (.error fault, after) →
      Session m (live.set index after) (faults ++ [fault])

section Sessions

variable {m : Machine} {live : List Instance} {faults : List Fault}

/-- The instance has as many fields as its type, which is loaded. -/
def Sound (m : Machine) (x : Instance) : Prop :=
  ∃ t, m.typeDecl x.unit x.typeName = .ok t ∧ HasFields x.unit x.typeName t.fields.length x

theorem sound_of_hasFields {unit typeName : String} {t : Image.TypeDecl} {x : Instance}
    (ht : m.typeDecl unit typeName = .ok t) (hx : HasFields unit typeName t.fields.length x) :
    m.Sound x := by
  obtain ⟨rfl, rfl, hlength⟩ := hx
  exact ⟨t, ht, ⟨rfl, rfl, hlength⟩⟩

theorem instantiate_settles (hm : m.Linked) {fuel : Nat} {unit typeName : String}
    {t : Image.TypeDecl} (ht : m.typeDecl unit typeName = .ok t) {result : Except Fault Instance}
    (hrun : m.instantiate fuel unit typeName = some result) :
    Settles m.Sound Fault.Ordinary result := by
  have hresult := (goodFuel hm fuel).construct 0 unit typeName t ht result hrun
  cases result with
  | ok x => exact sound_of_hasFields ht hresult
  | error fault => exact hresult

theorem invoke_keeps (hm : m.Linked) {fuel : Nat} {x after : Instance} {name : String}
    {method : Image.Method} {result : Except Fault Value} (hx : m.Sound x)
    (hmethod : m.methodFor x name 0 = .ok method)
    (hrun : m.invoke fuel x name = some (result, after)) : m.Sound after ∧ Regular result := by
  obtain ⟨t, ht, hfields⟩ := hx
  obtain ⟨t', ht', hfound, harity⟩ := methodFor_eq_ok.1 hmethod
  obtain rfl : t = t' := Except.ok.inj (ht.symm.trans ht')
  unfold invoke at hrun
  obtain ⟨⟨outcome, y⟩, hcall, hrun⟩ := Option.bind_eq_some_iff.1 hrun
  obtain ⟨hy, houtcome⟩ := (goodFuel hm fuel).call 0 _ _ t ht name [] ⟨method, hfound, harity⟩
    x hfields outcome y hcall
  cases hrun
  exact ⟨sound_of_hasFields ht hy, wrapped_regular houtcome _⟩

/-- However a session went, its instances are sound and its faults are ordinary. -/
theorem Session.sound (hm : m.Linked) (h : m.Session live faults) :
    (∀ x ∈ live, m.Sound x) ∧ ∀ fault ∈ faults, fault.Ordinary := by
  induction h with
  | start => simp
  | created _ ht hrun ih =>
    refine ⟨fun x hx => ?_, ih.2⟩
    rcases List.mem_append.1 hx with hx | hx
    · exact ih.1 x hx
    · obtain rfl := List.mem_singleton.1 hx
      exact instantiate_settles hm ht hrun
  | failed _ ht hrun ih =>
    refine ⟨ih.1, fun fault hfault => ?_⟩
    rcases List.mem_append.1 hfault with hfault | hfault
    · exact ih.2 fault hfault
    · obtain rfl := List.mem_singleton.1 hfault
      exact instantiate_settles hm ht hrun
  | returned _ hindex hmethod hrun ih =>
    have hafter := invoke_keeps hm (ih.1 _ (List.mem_of_getElem? hindex)) hmethod hrun
    refine ⟨fun x hx => ?_, ih.2⟩
    rcases List.mem_or_eq_of_mem_set hx with hx | rfl
    · exact ih.1 x hx
    · exact hafter.1
  | faulted _ hindex hmethod hrun ih =>
    have hafter := invoke_keeps hm (ih.1 _ (List.mem_of_getElem? hindex)) hmethod hrun
    refine ⟨fun x hx => ?_, fun fault hfault => ?_⟩
    · rcases List.mem_or_eq_of_mem_set hx with hx | rfl
      · exact ih.1 x hx
      · exact hafter.1
    · rcases List.mem_append.1 hfault with hfault | hfault
      · exact ih.2 fault hfault
      · obtain rfl := List.mem_singleton.1 hfault
        exact hafter.2

/-- An ordinary fault is no failure to find code. -/
theorem Fault.Ordinary.isLoadFailure_eq_false {fault : Fault} (h : fault.Ordinary) :
    fault.isLoadFailure = false := by
  unfold Fault.Ordinary at h
  unfold Fault.isLoadFailure
  cases hroot : fault.root <;> simp_all

/-- Linked code never goes wrong: every fault that a session returns has its root in what the
program computed, and none in code, slots or arguments that are not there. -/
theorem linked_session_faults (hm : m.Linked) (h : m.Session live faults) :
    ∀ fault ∈ faults, fault.Ordinary ∧ fault.isLoadFailure = false := by
  intro fault hfault
  have hordinary := (h.sound hm).2 fault hfault
  exact ⟨hordinary, hordinary.isLoadFailure_eq_false⟩

def oneWord : Word := ⟨1, by decide, by decide⟩

/-- A type whose method asks another unit, whose answer does not hold. -/
def askingMachine : Machine where
  entry := "App"
  images := [
    ("App", ⟨"App", ["Lib"], [⟨"App.Main", [], [⟨"asked", .constant (.integer .zero)⟩], [
      ⟨"run", 0, 1, [], [
        .setField 0 (.binary (.field 0) .add (.constant (.integer oneWord))),
        .setLocal 0 (.callStatic ⟨"Lib", "Lib.Rules", "check"⟩ [.field 0])], 1⟩]⟩]⟩),
    ("Lib", ⟨"Lib", [], [⟨"Lib.Rules", [], [], [
      ⟨"check", 1, 1, [], [
        .expr (.assertion .assert [
          .binary (.local 0) .lt (.constant (.integer oneWord))])], 1⟩]⟩]⟩)]
  maxCallDepth := defaultCallDepth

theorem askingMachine_linked : askingMachine.Linked := by
  have hcheck : askingMachine.Offers ⟨"Lib", "Lib.Rules", "check"⟩ 1 :=
    ⟨_, rfl, _, rfl, _, rfl, rfl⟩
  refine linked_of_images ?_
  generalize askingMachine.Offers = offers at hcheck
  simp only [askingMachine, List.forall_mem_cons, List.not_mem_nil, false_imp_iff, implies_true,
    and_true]
  refine ⟨⟨?_, ?_, ?_⟩, ⟨?_, ?_, ?_⟩⟩
  all_goals simp [Image.TypeDecl.condition, Code.Expr.Meets, Code.StmtsMeet, Code.Stmt.Meets,
    Code.ExprsMeet, Builtin.arity, hcheck]

/-- The session goes on after the fault, with the field that was set before it. -/
theorem linked_session_faults_asking :
    askingMachine.Linked ∧ ∃ live fault, askingMachine.Session live [fault] ∧
      live = [⟨"App", "App.Main", [.integer oneWord]⟩] ∧
      fault.root = .assertion "Expected: true but was: false" ∧ fault.Ordinary := by
  let new (n : Word) : Instance := ⟨"App", "App.Main", [.integer n]⟩
  have hmade : askingMachine.instantiate 9 "App" "App.Main" = some (.ok (new .zero)) := rfl
  have hcreated := Session.created .start rfl hmade
  have hindex : ([] ++ [new .zero])[0]? = some (new .zero) := rfl
  have hrun : askingMachine.invoke 9 (new .zero) "run" =
      some (.error (.invocation "App.Main.run" (.invocation "Lib.Rules.check"
        (.assertion "Expected: true but was: false"))), new oneWord) := rfl
  have hfaulted := Session.faulted hcreated hindex rfl hrun
  exact ⟨askingMachine_linked, _, _, hfaulted, rfl, rfl,
    (linked_session_faults askingMachine_linked hfaulted _ List.mem_cons_self).1⟩

end Sessions

end TestBench.Machine
