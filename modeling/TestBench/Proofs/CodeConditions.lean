import TestBench.Image.Basic

/-!
Conditions on the slots, fields and calls in a piece of code, wherever in it
they stand. A type is well formed if its code stays inside the slots of each
method and the fields of the type and calls the methods of the type as they are
declared; what may be asked of calls of other types is left open. A condition
that is weakened still holds of the code.
-/
namespace TestBench

namespace Code

/-- What is asked of each kind of reference, and of each call with its number of arguments. -/
structure Condition where
  slot : Nat → Prop
  field : Nat → Prop
  sibling : String → Nat → Prop
  static : Target → Nat → Prop
  assertion : Builtin → Nat → Prop

/-- Whatever the second condition accepts, the first does. -/
structure Condition.Weaker (k k' : Condition) : Prop where
  slot : ∀ n, k'.slot n → k.slot n
  field : ∀ n, k'.field n → k.field n
  sibling : ∀ name n, k'.sibling name n → k.sibling name n
  static : ∀ target n, k'.static target n → k.static target n
  assertion : ∀ b n, k'.assertion b n → k.assertion b n

mutual

def Expr.Meets (k : Condition) : Expr → Prop
  | .constant _ => True
  | .local slot => k.slot slot
  | .field index => k.field index
  | .unary _ operand => operand.Meets k
  | .binary left _ right => left.Meets k ∧ right.Meets k
  | .callSelf method arguments => k.sibling method arguments.length ∧ ExprsMeet k arguments
  | .callStatic target arguments => k.static target arguments.length ∧ ExprsMeet k arguments
  | .assertion builtin arguments => k.assertion builtin arguments.length ∧ ExprsMeet k arguments

def ExprsMeet (k : Condition) : List Expr → Prop
  | [] => True
  | e :: rest => e.Meets k ∧ ExprsMeet k rest

end

mutual

def Stmt.Meets (k : Condition) : Stmt → Prop
  | .setLocal slot value => k.slot slot ∧ value.Meets k
  | .setField index value => k.field index ∧ value.Meets k
  | .return none => True
  | .return (some value) => value.Meets k
  | .cond condition body otherwise =>
    condition.Meets k ∧ StmtsMeet k body ∧ StmtsMeet k otherwise
  | .while condition body => condition.Meets k ∧ StmtsMeet k body
  | .expr value => value.Meets k

def StmtsMeet (k : Condition) : List Stmt → Prop
  | [] => True
  | s :: rest => s.Meets k ∧ StmtsMeet k rest

end

variable {k k' : Condition}

mutual

theorem Expr.Meets.weaken (hw : k.Weaker k') : ∀ e : Expr, e.Meets k' → e.Meets k
  | .constant _, _ => trivial
  | .local slot, h => hw.slot slot h
  | .field index, h => hw.field index h
  | .unary _ operand, h => Expr.Meets.weaken hw operand h
  | .binary left _ right, h =>
    ⟨Expr.Meets.weaken hw left h.1, Expr.Meets.weaken hw right h.2⟩
  | .callSelf method arguments, h =>
    ⟨hw.sibling method _ h.1, ExprsMeet.weaken hw arguments h.2⟩
  | .callStatic target arguments, h =>
    ⟨hw.static target _ h.1, ExprsMeet.weaken hw arguments h.2⟩
  | .assertion builtin arguments, h =>
    ⟨hw.assertion builtin _ h.1, ExprsMeet.weaken hw arguments h.2⟩

theorem ExprsMeet.weaken (hw : k.Weaker k') : ∀ es : List Expr, ExprsMeet k' es → ExprsMeet k es
  | [], _ => trivial
  | e :: rest, h => ⟨Expr.Meets.weaken hw e h.1, ExprsMeet.weaken hw rest h.2⟩

end

mutual

theorem Stmt.Meets.weaken (hw : k.Weaker k') : ∀ s : Stmt, s.Meets k' → s.Meets k
  | .setLocal slot value, h => ⟨hw.slot slot h.1, Expr.Meets.weaken hw value h.2⟩
  | .setField index value, h => ⟨hw.field index h.1, Expr.Meets.weaken hw value h.2⟩
  | .return none, _ => trivial
  | .return (some value), h => Expr.Meets.weaken hw value h
  | .cond condition body otherwise, h =>
    ⟨Expr.Meets.weaken hw condition h.1, StmtsMeet.weaken hw body h.2.1,
      StmtsMeet.weaken hw otherwise h.2.2⟩
  | .while condition body, h =>
    ⟨Expr.Meets.weaken hw condition h.1, StmtsMeet.weaken hw body h.2⟩
  | .expr value, h => Expr.Meets.weaken hw value h

theorem StmtsMeet.weaken (hw : k.Weaker k') : ∀ ss : List Stmt, StmtsMeet k' ss → StmtsMeet k ss
  | [], _ => trivial
  | s :: rest, h => ⟨Stmt.Meets.weaken hw s h.1, StmtsMeet.weaken hw rest h.2⟩

end

theorem stmtsMeet_append {a b : List Stmt} :
    StmtsMeet k (a ++ b) ↔ StmtsMeet k a ∧ StmtsMeet k b := by
  induction a with
  | nil => simp [StmtsMeet]
  | cons s rest ih => simp [StmtsMeet, ih, and_assoc]

mutual

/-- The calls of other types anywhere in an expression, with their numbers of arguments. -/
def Expr.staticCalls : Expr → List (Target × Nat)
  | .constant _ | .local _ | .field _ => []
  | .unary _ operand => operand.staticCalls
  | .binary left _ right => left.staticCalls ++ right.staticCalls
  | .callSelf _ arguments | .assertion _ arguments => exprsCalls arguments
  | .callStatic target arguments => (target, arguments.length) :: exprsCalls arguments

def exprsCalls : List Expr → List (Target × Nat)
  | [] => []
  | e :: rest => e.staticCalls ++ exprsCalls rest

end

mutual

def Stmt.staticCalls : Stmt → List (Target × Nat)
  | .setLocal _ value | .setField _ value | .return (some value) | .expr value =>
    value.staticCalls
  | .return none => []
  | .cond condition body otherwise =>
    condition.staticCalls ++ stmtsCalls body ++ stmtsCalls otherwise
  | .while condition body => condition.staticCalls ++ stmtsCalls body

def stmtsCalls : List Stmt → List (Target × Nat)
  | [] => []
  | s :: rest => s.staticCalls ++ stmtsCalls rest

end

mutual

theorem Expr.Meets.static : ∀ {e : Expr}, e.Meets k → ∀ call ∈ e.staticCalls,
    k.static call.1 call.2
  | .constant _, _, _, hcall => by cases hcall
  | .local _, _, _, hcall => by cases hcall
  | .field _, _, _, hcall => by cases hcall
  | .unary _ operand, h, call, hcall => Expr.Meets.static (e := operand) h call hcall
  | .binary left _ right, h, call, hcall => by
    rcases List.mem_append.1 hcall with hcall | hcall
    · exact Expr.Meets.static h.1 call hcall
    · exact Expr.Meets.static h.2 call hcall
  | .callSelf _ _, h, call, hcall => ExprsMeet.static h.2 call hcall
  | .callStatic _ _, h, call, hcall => by
    rcases List.mem_cons.1 hcall with rfl | hcall
    · exact h.1
    · exact ExprsMeet.static h.2 call hcall
  | .assertion _ _, h, call, hcall => ExprsMeet.static h.2 call hcall

theorem ExprsMeet.static : ∀ {es : List Expr}, ExprsMeet k es → ∀ call ∈ exprsCalls es,
    k.static call.1 call.2
  | [], _, _, hcall => by cases hcall
  | _ :: _, h, call, hcall => by
    rcases List.mem_append.1 hcall with hcall | hcall
    · exact Expr.Meets.static h.1 call hcall
    · exact ExprsMeet.static h.2 call hcall

end

mutual

theorem Stmt.Meets.static : ∀ {s : Stmt}, s.Meets k → ∀ call ∈ s.staticCalls,
    k.static call.1 call.2
  | .setLocal _ _, h, call, hcall => Expr.Meets.static h.2 call hcall
  | .setField _ _, h, call, hcall => Expr.Meets.static h.2 call hcall
  | .return none, _, _, hcall => by cases hcall
  | .return (some value), h, call, hcall => Expr.Meets.static (e := value) h call hcall
  | .cond _ _ _, h, call, hcall => by
    rcases List.mem_append.1 hcall with hcall | hcall
    · rcases List.mem_append.1 hcall with hcall | hcall
      · exact Expr.Meets.static h.1 call hcall
      · exact StmtsMeet.static h.2.1 call hcall
    · exact StmtsMeet.static h.2.2 call hcall
  | .while _ _, h, call, hcall => by
    rcases List.mem_append.1 hcall with hcall | hcall
    · exact Expr.Meets.static h.1 call hcall
    · exact StmtsMeet.static h.2 call hcall
  | .expr value, h, call, hcall => Expr.Meets.static (e := value) h call hcall

theorem StmtsMeet.static : ∀ {ss : List Stmt}, StmtsMeet k ss → ∀ call ∈ stmtsCalls ss,
    k.static call.1 call.2
  | [], _, _, hcall => by cases hcall
  | _ :: _, h, call, hcall => by
    rcases List.mem_append.1 hcall with hcall | hcall
    · exact Stmt.Meets.static h.1 call hcall
    · exact StmtsMeet.static h.2 call hcall

end

end Code

namespace Image

/-- The image has the type and the type has the method, with so many parameters. -/
def Declares (image : Image) (typeName method : String) (arity : Nat) : Prop :=
  ∃ t, image.type? typeName = some t ∧ ∃ m, t.method? method = some m ∧ m.arity = arity

instance (image : Image) (typeName method : String) (arity : Nat) :
    Decidable (image.Declares typeName method arity) :=
  decidable_of_iff ((image.type? typeName).any fun t => (t.method? method).any (·.arity = arity))
    (by simp [Declares, Option.any_eq_true])

namespace TypeDecl

/-- What a type asks of code that has so many slots. -/
def condition (t : TypeDecl) (static : Code.Target → Nat → Prop) (slots : Nat) :
    Code.Condition where
  slot n := n < slots
  field n := n < t.fields.length
  sibling name count := ∃ m, t.method? name = some m ∧ m.arity = count
  static := static
  assertion b count := b.arity = count

/-- The code of a type stays inside its slots and fields and calls what there is. Initial values
have no slots at all. -/
structure WellFormed (static : Code.Target → Nat → Prop) (t : TypeDecl) : Prop where
  inits : ∀ f ∈ t.fields, f.init.Meets (t.condition static 0)
  arity_le : ∀ m ∈ t.methods, m.arity ≤ m.locals
  bodies : ∀ m ∈ t.methods, Code.StmtsMeet (t.condition static m.locals) m.body

def staticCalls (t : TypeDecl) : List (Code.Target × Nat) :=
  t.fields.flatMap (·.init.staticCalls) ++ t.methods.flatMap (Code.stmtsCalls ·.body)

theorem WellFormed.static {static : Code.Target → Nat → Prop} {t : TypeDecl}
    (h : t.WellFormed static) : ∀ call ∈ t.staticCalls, static call.1 call.2 := by
  intro call hcall
  rcases List.mem_append.1 hcall with hcall | hcall
  · obtain ⟨f, hf, hcall⟩ := List.mem_flatMap.1 hcall
    exact Code.Expr.Meets.static (h.inits f hf) call hcall
  · obtain ⟨m, hm, hcall⟩ := List.mem_flatMap.1 hcall
    exact Code.StmtsMeet.static (h.bodies m hm) call hcall

end TypeDecl

/-- The calls of other types anywhere in the image. -/
def staticCalls (image : Image) : List (Code.Target × Nat) :=
  image.types.flatMap (·.staticCalls)

end Image

end TestBench
