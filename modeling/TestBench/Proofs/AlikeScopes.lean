import TestBench.Proofs.WellFormedImages

/-!
What lowering reads of a scope: the units that names have their homes in, and
the numbers of arguments that methods take. Types are lowered the same in scopes
that agree on these, down to the faults and their order.
-/
namespace TestBench.Compile

/-- Scopes in which every name has the same home, and every method there the same arity. -/
structure Scope.Alike (s s' : Scope) : Prop where
  home?_eq : ∀ fullName, s.home? fullName = s'.home? fullName
  arity?_eq : ∀ unit fullName method,
    s.arity? unit fullName method = s'.arity? unit fullName method

variable {s s' : Scope} {t : OwnType}

theorem Scope.Alike.resolve?_eq (h : s.Alike s') (p : Source.Program) (written : String) :
    s.resolve? p written = s'.resolve? p written := by
  simp only [resolve?, h.home?_eq]

namespace Site

theorem staticCall_alike (h : s.Alike s') (callee : Spanned QualifiedName)
    (qualifier : QualifiedName) (args : List Code.Expr) :
    (t.site s).staticCall callee qualifier args = (t.site s').staticCall callee qualifier args := by
  have hresolve := h.resolve?_eq t.origin.program qualifier.written
  simp only [staticCall, OwnType.site, hresolve, h.arity?_eq]

theorem call_alike (h : s.Alike s') : (t.site s).call = (t.site s').call := by
  funext callee args
  simp only [call_eq, staticCall_alike h]
  rfl

mutual

theorem expr_alike (h : s.Alike s') (locals : List String) : ∀ e : Source.Expr,
    (t.site s).expr locals e = (t.site s').expr locals e
  | .constant .. | .name .. => rfl
  | .unary _ _ operand => by rw [expr, expr, expr_alike h locals operand]
  | .binary _ _ left right => by
    rw [expr, expr, expr_alike h locals left, expr_alike h locals right]
  | .call _ callee arguments => by
    rw [expr, expr, exprs_alike h locals arguments, call_alike h]
  | .paren _ inner => by rw [expr, expr, expr_alike h locals inner]

theorem exprs_alike (h : s.Alike s') (locals : List String) : ∀ es : List Source.Expr,
    (t.site s).exprs locals es = (t.site s').exprs locals es
  | [] => rfl
  | e :: rest => by
    rw [exprs, exprs, expr_alike h locals e, exprs_alike h locals rest]

end

mutual

theorem stmt_alike (h : s.Alike s') : ∀ (locals : List String) (st : Source.Stmt),
    (t.site s).stmt locals st = (t.site s').stmt locals st
  | locals, .bind _ _ value => by rw [stmt, stmt, expr_alike h locals value]
  | locals, .assign _ _ value => by
    rw [stmt, stmt, expr_alike h locals value]
    rfl
  | _, .return _ none => rfl
  | locals, .return _ (some value) => by rw [stmt, stmt, expr_alike h locals value]
  | locals, .ifThen _ condition body => by
    rw [stmt, stmt, expr_alike h locals condition, block_alike h locals body]
  | locals, .ifElse _ condition body otherwise => by
    have hotherwise := fun known => block_alike h known otherwise
    simp only [stmt, expr_alike h locals condition, block_alike h locals body, hotherwise]
  | locals, .while _ condition body => by
    rw [stmt, stmt, expr_alike h locals condition, block_alike h locals body]
  | locals, .expr _ value => by rw [stmt, stmt, expr_alike h locals value]

theorem block_alike (h : s.Alike s') : ∀ (locals : List String) (ss : List Source.Stmt),
    (t.site s).block locals ss = (t.site s').block locals ss
  | _, [] => rfl
  | locals, st :: rest => by
    rw [block, block, stmt_alike h locals st, block_alike h _ rest]

end

theorem field_alike (h : s.Alike s') : (t.site s).field = (t.site s').field := by
  funext f
  rw [field, field, expr_alike h]

theorem method_alike (h : s.Alike s') : (t.site s).method = (t.site s').method := by
  funext m
  rw [method, method, block_alike h]
  rfl

end Site

/-- A type is lowered the same in scopes that are alike. -/
theorem lowerType_alike (h : s.Alike s') (t : OwnType) : lowerType s t = lowerType s' t := by
  have hfield : Site.field ⟨s, t.origin.program, t⟩ = Site.field ⟨s', t.origin.program, t⟩ :=
    Site.field_alike (t := t) h
  have hmethod : Site.method ⟨s, t.origin.program, t⟩ = Site.method ⟨s', t.origin.program, t⟩ :=
    Site.method_alike (t := t) h
  simp only [lowerType, hfield, hmethod]

end TestBench.Compile
