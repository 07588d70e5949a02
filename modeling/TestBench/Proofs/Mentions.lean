import TestBench.Proofs.FaultlessFiles

/-!
What code mentions. A name in a method is known if it is a parameter, a local
variable that the text declares before it, or a field; blocks make no difference.
A callee is known by the number of arguments that it takes. Lowering a piece of
code makes no fault exactly if all that it mentions is known and no variable is
declared under the name of another or of a parameter.
-/
namespace TestBench

namespace Source

/-- A name that is read or assigned beside the locals that are declared before it, or a call with
the number of its arguments. -/
inductive Mention where
  | name (known : List String) (name : String)
  | call (callee : QualifiedName) (count : Nat)
  deriving DecidableEq, Repr

mutual

/-- All that an expression mentions, wherever it stands in it. -/
def Expr.mentions (known : List String) : Expr → List Mention
  | .constant .. => []
  | .name _ name => [.name known name]
  | .unary _ _ operand => operand.mentions known
  | .binary _ _ left right => left.mentions known ++ right.mentions known
  | .call _ callee arguments =>
    mentionsOfAll known arguments ++ [.call callee.node arguments.length]
  | .paren _ inner => inner.mentions known

def mentionsOfAll (known : List String) : List Expr → List Mention
  | [] => []
  | e :: rest => e.mentions known ++ mentionsOfAll known rest

end

mutual

/-- All that a statement mentions where the locals in `known` are declared before it. -/
def Stmt.mentions (known : List String) : Stmt → List Mention
  | .bind _ _ value | .return _ (some value) | .expr _ value => value.mentions known
  | .assign _ target value => value.mentions known ++ [.name known target]
  | .return _ none => []
  | .ifThen _ condition body | .while _ condition body =>
    condition.mentions known ++ mentionsIn known body
  | .ifElse _ condition body otherwise =>
    condition.mentions known ++ mentionsIn known body
      ++ mentionsIn (known ++ declaredIn body) otherwise

def mentionsIn (known : List String) : List Stmt → List Mention
  | [] => []
  | s :: rest => s.mentions known ++ mentionsIn (known ++ declaredBy s) rest

end

end Source

namespace Compile

open Source (Mention mentionsOfAll mentionsIn declaredBy declaredIn)

theorem checked_faults_iff {callee : Spanned String} {expected found : Nat} {code : Code.Expr} :
    (checked callee expected found code).2 = [] ↔ expected = found := by
  unfold checked
  split
  · next heq => exact iff_of_true rfl heq
  · next hne => exact iff_of_false (List.cons_ne_nil _ _) hne

namespace Site

variable {site : Site} {locals : List String}

/-- A name has a place exactly if it is a local or a field. -/
theorem storage?_eq_none_iff {name : String} :
    site.storage? locals name = none ↔ ¬ (name ∈ locals ∨ name ∈ site.type.fields) := by
  unfold storage? OwnType.fieldIndex?
  cases hslot : locals.findIdx? (· == name) with
  | some slot =>
    have hmem : name ∈ locals := by
      obtain ⟨hlt, hname, -⟩ := List.findIdx?_eq_some_iff_getElem.1 hslot
      exact beq_iff_eq.1 hname ▸ List.getElem_mem hlt
    exact iff_of_false (Option.some_ne_none _) (not_not.2 (Or.inl hmem))
  | none =>
    have hnot : name ∉ locals := fun hmem => by
      have hdiffers := List.findIdx?_eq_none_iff.1 hslot name hmem
      simp at hdiffers
    rw [Option.map_eq_none_iff, List.findIdx?_eq_none_iff, not_or]
    refine ⟨fun h => ⟨hnot, fun hmem => by simpa using h name hmem⟩, fun h other hother => ?_⟩
    exact beq_eq_false_iff_ne.2 fun heq => h.2 (heq ▸ hother)

/-- The number of arguments that a callee takes. -/
def takes? (site : Site) (callee : QualifiedName) : Option Nat :=
  match site.sibling? callee with
  | some arity => some arity
  | none =>
    match Builtin.ofSpelling? callee.written with
    | some b => some b.arity
    | none => callee.qualifier?.bind fun qualifier =>
      (site.scope.resolve? site.program qualifier.written).bind fun target =>
        site.scope.arity? target.1 target.2 callee.last

/-- What is mentioned is known to the site. -/
def Meets (site : Site) : Mention → Prop
  | .name known name => name ∈ known ∨ name ∈ site.type.fields
  | .call callee count => site.takes? callee = some count

theorem staticCall_faults_iff {callee : Spanned QualifiedName} {qualifier : QualifiedName}
    {args : List Code.Expr} : (site.staticCall callee qualifier args).2 = [] ↔
      ((site.scope.resolve? site.program qualifier.written).bind fun target =>
        site.scope.arity? target.1 target.2 callee.node.last) = some args.length := by
  unfold staticCall
  cases site.scope.resolve? site.program qualifier.written with
  | none => simp
  | some target =>
    obtain ⟨unit, fullName⟩ := target
    cases harity : site.scope.arity? unit fullName callee.node.last with
    | none => simp [harity]
    | some arity => simp [harity, checked_faults_iff]

theorem call_faults_iff {callee : Spanned QualifiedName} {args : List Code.Expr} :
    (site.call callee args).2 = [] ↔ site.takes? callee.node = some args.length := by
  rw [call_eq, takes?]
  cases site.sibling? callee.node with
  | some arity => simp [checked_faults_iff]
  | none =>
    cases Builtin.ofSpelling? callee.node.written with
    | some b => simp [checked_faults_iff]
    | none =>
      cases callee.node.qualifier? with
      | none => simp
      | some qualifier => exact staticCall_faults_iff

theorem exprs_length (site : Site) (locals : List String) (es : List Source.Expr) :
    (site.exprs locals es).1.length = es.length := by
  induction es with
  | nil => rfl
  | cons e rest ih => exact congrArg (· + 1) ih

mutual

theorem expr_faults_iff : ∀ e : Source.Expr,
    (site.expr locals e).2 = [] ↔ ∀ m ∈ e.mentions locals, site.Meets m
  | .constant .. => iff_of_true rfl (List.forall_mem_nil _)
  | .name _ name => by
    rw [Source.Expr.mentions, List.forall_mem_singleton, expr]
    cases hstorage : site.storage? locals name with
    | none => exact iff_of_false (List.cons_ne_nil _ _) (storage?_eq_none_iff.1 hstorage)
    | some storage =>
      have hknown : site.Meets (.name locals name) := by
        by_contra hnot
        rw [storage?_eq_none_iff.2 hnot] at hstorage
        cases hstorage
      cases storage with
      | «local» slot => exact iff_of_true rfl hknown
      | field index => exact iff_of_true rfl hknown
  | .unary _ _ operand => expr_faults_iff operand
  | .binary _ _ left right => by
    rw [Source.Expr.mentions, List.forall_mem_append, ← expr_faults_iff left,
      ← expr_faults_iff right]
    exact List.append_eq_nil_iff
  | .call _ callee arguments => by
    rw [Source.Expr.mentions, List.forall_mem_append, List.forall_mem_singleton,
      ← exprs_faults_iff arguments, Meets, ← exprs_length site locals arguments,
      ← call_faults_iff]
    exact List.append_eq_nil_iff
  | .paren _ inner => expr_faults_iff inner

theorem exprs_faults_iff : ∀ es : List Source.Expr,
    (site.exprs locals es).2 = [] ↔ ∀ m ∈ mentionsOfAll locals es, site.Meets m
  | [] => iff_of_true rfl (List.forall_mem_nil _)
  | e :: rest => by
    rw [mentionsOfAll, List.forall_mem_append, ← expr_faults_iff e, ← exprs_faults_iff rest]
    exact List.append_eq_nil_iff

end

/-- Statements behind others are without fault together with them if their variables are new
as well. -/
theorem block_after_iff {first : Lowered} {declared more : List String} {ss : List Source.Stmt}
    {p q : Prop} (hfirst : first.faults = [] ↔ (locals ++ declared).Nodup ∧ p)
    (hlocals : first.faults = [] → first.locals = locals ++ declared)
    (hsecond : (locals ++ declared).Nodup → ((site.block (locals ++ declared) ss).faults = [] ↔
      (locals ++ declared ++ more).Nodup ∧ q)) :
    first.faults = [] ∧ (site.block first.locals ss).faults = [] ↔
      (locals ++ (declared ++ more)).Nodup ∧ p ∧ q := by
  rw [← List.append_assoc]
  constructor
  · rintro ⟨hnone, hlater⟩
    obtain ⟨hnodup, hp⟩ := hfirst.1 hnone
    rw [hlocals hnone] at hlater
    obtain ⟨hall, hq⟩ := (hsecond hnodup).1 hlater
    exact ⟨hall, hp, hq⟩
  · rintro ⟨hall, hp, hq⟩
    have hnodup : (locals ++ declared).Nodup := (List.nodup_append.1 hall).1
    have hnone := hfirst.2 ⟨hnodup, hp⟩
    rw [hlocals hnone]
    exact ⟨hnone, (hsecond hnodup).2 ⟨hall, hq⟩⟩

theorem bind_faults_iff (hnodup : locals.Nodup) {span : Span} {name : String}
    {value : Source.Expr} : (site.stmt locals (.bind span name value)).faults = [] ↔
      (locals ++ [name]).Nodup ∧ ∀ m ∈ value.mentions locals, site.Meets m := by
  have hnew : (locals ++ [name]).Nodup ↔ name ∉ locals := by
    rw [← List.concat_eq_append, List.nodup_concat]
    exact and_iff_left hnodup
  rw [hnew, ← expr_faults_iff, stmt]
  by_cases hmem : name ∈ locals
  · simp [hmem, Lowered.fail]
  · simp [hmem, Lowered.one]

theorem assign_faults_iff {span : Span} {target : String} {value : Source.Expr} :
    (site.stmt locals (.assign span target value)).faults = [] ↔
      ∀ m ∈ value.mentions locals ++ [.name locals target], site.Meets m := by
  rw [List.forall_mem_append, List.forall_mem_singleton, ← expr_faults_iff, stmt]
  cases hstorage : site.storage? locals target with
  | none =>
    have hunknown : ¬ site.Meets (.name locals target) := storage?_eq_none_iff.1 hstorage
    simp [hunknown, Lowered.fail]
  | some storage =>
    have hknown : site.Meets (.name locals target) := by
      by_contra hnot
      rw [storage?_eq_none_iff.2 hnot] at hstorage
      cases hstorage
    cases storage <;> simp [hknown, Lowered.one]

mutual

theorem stmt_faults_iff : ∀ (locals : List String) (s : Source.Stmt), locals.Nodup →
    ((site.stmt locals s).faults = [] ↔
      (locals ++ declaredBy s).Nodup ∧ ∀ m ∈ s.mentions locals, site.Meets m)
  | _, .bind .., hnodup => bind_faults_iff hnodup
  | locals, .assign .., hnodup => by
    rw [declaredBy, List.append_nil, Source.Stmt.mentions, assign_faults_iff]
    exact (and_iff_right hnodup).symm
  | locals, .return _ none, hnodup => by
    rw [declaredBy, List.append_nil]
    exact iff_of_true rfl ⟨hnodup, List.forall_mem_nil _⟩
  | locals, .return _ (some value), hnodup => by
    rw [declaredBy, List.append_nil, Source.Stmt.mentions, ← expr_faults_iff]
    exact (and_iff_right hnodup).symm
  | locals, .ifThen _ condition body, hnodup => by
    rw [declaredBy, Source.Stmt.mentions, List.forall_mem_append, ← expr_faults_iff,
      and_left_comm, ← block_faults_iff locals body hnodup]
    exact List.append_eq_nil_iff
  | locals, .ifElse _ condition body otherwise, hnodup => by
    have hboth := block_after_iff (block_faults_iff locals body hnodup)
      (block_locals locals body) (block_faults_iff (locals ++ declaredIn body) otherwise)
    rw [declaredBy, Source.Stmt.mentions, List.forall_mem_append, List.forall_mem_append,
      ← expr_faults_iff, and_assoc, and_left_comm, ← hboth, ← and_assoc]
    exact List.append_eq_nil_iff.trans (and_congr_left' List.append_eq_nil_iff)
  | locals, .while _ condition body, hnodup => by
    rw [declaredBy, Source.Stmt.mentions, List.forall_mem_append, ← expr_faults_iff,
      and_left_comm, ← block_faults_iff locals body hnodup]
    exact List.append_eq_nil_iff
  | locals, .expr _ value, hnodup => by
    rw [declaredBy, List.append_nil, Source.Stmt.mentions, ← expr_faults_iff]
    exact (and_iff_right hnodup).symm

theorem block_faults_iff : ∀ (locals : List String) (ss : List Source.Stmt), locals.Nodup →
    ((site.block locals ss).faults = [] ↔
      (locals ++ declaredIn ss).Nodup ∧ ∀ m ∈ mentionsIn locals ss, site.Meets m)
  | locals, [], hnodup => by
    rw [declaredIn, List.append_nil]
    exact iff_of_true rfl ⟨hnodup, List.forall_mem_nil _⟩
  | locals, s :: rest, hnodup => by
    have hboth := block_after_iff (stmt_faults_iff locals s hnodup) (stmt_locals locals s)
      (block_faults_iff (locals ++ declaredBy s) rest)
    rw [declaredIn, mentionsIn, List.forall_mem_append, ← hboth]
    exact List.append_eq_nil_iff

end

/-- A method is without fault if its parameters and variables all have names of their own and its
body mentions what is known. -/
theorem method_faults_iff (m : Source.Method) : (site.method m).2 = [] ↔
    (m.parameters.map (·.node) ++ declaredIn m.body).Nodup ∧
      ∀ mention ∈ mentionsIn (m.parameters.map (·.node)) m.body, site.Meets mention := by
  have hparameters : parameterFaults m = [] ↔ (m.parameters.map (·.node)).Nodup := by
    rw [parameterFaults, distinct_faults_iff]
    simp
  have happend : (site.method m).2 =
      parameterFaults m ++ (site.block (m.parameters.map (·.node)) m.body).faults := rfl
  rw [happend, List.append_eq_nil_iff, hparameters]
  constructor
  · rintro ⟨hnodup, hbody⟩
    exact (block_faults_iff _ m.body hnodup).1 hbody
  · intro h
    have hnodup := (List.nodup_append.1 h.1).1
    exact ⟨hnodup, (block_faults_iff _ m.body hnodup).2 h⟩

end Site

end Compile

end TestBench
