import TestBench.Proofs.CodeConditions
import TestBench.Proofs.DeclaredTypes
import TestBench.Proofs.DirectMeaning

/-!
Lowering without a fault. Every name then has a slot or a field, every call has
one of three forms, and every statement becomes exactly one statement. The
locals grow by the variables that the text declares, each of which takes the
next slot, so that the code stays below the number of locals at its end.
-/
namespace TestBench.Compile

open Source (declaredBy declaredIn)

mutual

/-- The local variables that a statement declares, each with the slot that its code sets. -/
def slotsBy : Source.Stmt → Code.Stmt → List (String × Nat)
  | .bind _ name _, .setLocal slot _ => [(name, slot)]
  | .ifThen _ _ body, .cond _ code _ => slotsIn body code
  | .ifElse _ _ body otherwise, .cond _ code more => slotsIn body code ++ slotsIn otherwise more
  | .while _ _ body, .while _ code => slotsIn body code
  | _, _ => []

def slotsIn : List Source.Stmt → List Code.Stmt → List (String × Nat)
  | s :: rest, code :: more => slotsBy s code ++ slotsIn rest more
  | _, _ => []

end

theorem checked_eq {callee : Spanned String} {expected found : Nat} {code : Code.Expr}
    (h : (checked callee expected found code).2 = []) :
    expected = found ∧ (checked callee expected found code).1 = code := by
  unfold checked at h ⊢
  split at h
  · next heq => exact ⟨heq, by rw [if_pos heq]⟩
  · cases h

namespace Site

variable {site : Site} {locals : List String}

theorem storage?_slot {name : String} {slot : Nat}
    (h : site.storage? locals name = some (.local slot)) : locals[slot]? = some name := by
  unfold storage? at h
  split at h
  · next found hfound =>
    obtain ⟨hlt, hname, _⟩ := List.findIdx?_eq_some_iff_getElem.1 hfound
    obtain rfl : found = slot := by simpa using h
    rw [List.getElem?_eq_getElem hlt, beq_iff_eq.1 hname]
  · simp at h

theorem storage?_field {name : String} {index : Nat}
    (h : site.storage? locals name = some (.field index)) :
    name ∉ locals ∧ site.type.fields[index]? = some name := by
  unfold storage? at h
  split at h
  · cases h
  · next hnone =>
    obtain ⟨found, hfound, heq⟩ := Option.map_eq_some_iff.1 h
    obtain ⟨hlt, hname, _⟩ := List.findIdx?_eq_some_iff_getElem.1 hfound
    obtain rfl : found = index := by simpa using heq
    refine ⟨?_, by rw [List.getElem?_eq_getElem hlt, beq_iff_eq.1 hname]⟩
    intro hmem
    exact absurd (List.findIdx?_eq_none_iff.1 hnone name hmem) (by simp)

/-- The method of the same type that a callee names, if it is a lone name. -/
def sibling? (site : Site) (name : QualifiedName) : Option Nat :=
  if name.isSimple then site.type.arity? name.last else none

theorem call_eq (callee : Spanned QualifiedName) (args : List Code.Expr) :
    site.call callee args = match site.sibling? callee.node with
      | some arity =>
        checked ⟨callee.node.written, callee.span⟩ arity args.length
          (.callSelf callee.node.last args)
      | none =>
        match Builtin.ofSpelling? callee.node.written with
        | some b =>
          checked ⟨callee.node.written, callee.span⟩ b.arity args.length (.assertion b args)
        | none =>
          match callee.node.qualifier? with
          | some qualifier => site.staticCall callee qualifier args
          | none =>
            (placeholder, [⟨.unknownMethod site.type.fullName callee.node.last, callee.span⟩]) :=
  rfl

theorem staticCall_eq {callee : Spanned QualifiedName} {qualifier : QualifiedName}
    {args : List Code.Expr} (h : (site.staticCall callee qualifier args).2 = []) :
    ∃ unit fullName, site.scope.resolve? site.program qualifier.written = some (unit, fullName) ∧
      site.scope.arity? unit fullName callee.node.last = some args.length ∧
      (site.staticCall callee qualifier args).1 =
        .callStatic ⟨unit, fullName, callee.node.last⟩ args := by
  unfold staticCall at h ⊢
  cases hresolve : site.scope.resolve? site.program qualifier.written with
  | none =>
    rw [hresolve] at h
    cases h
  | some target =>
    obtain ⟨unit, fullName⟩ := target
    simp only [hresolve] at h ⊢
    cases harity : site.scope.arity? unit fullName callee.node.last with
    | none =>
      rw [harity] at h
      cases h
    | some arity =>
      simp only [harity] at h ⊢
      obtain ⟨rfl, hcode⟩ := checked_eq h
      exact ⟨unit, fullName, rfl, harity, hcode⟩

/-- The three forms of a call that is lowered without a fault. Methods of the
type come before builtins, and builtins before other types. -/
theorem call_cases {callee : Spanned QualifiedName} {args : List Code.Expr}
    (h : (site.call callee args).2 = []) :
    (site.sibling? callee.node = some args.length ∧
      (site.call callee args).1 = .callSelf callee.node.last args) ∨
    (site.sibling? callee.node = none ∧ ∃ b, Builtin.ofSpelling? callee.node.written = some b ∧
      b.arity = args.length ∧ (site.call callee args).1 = .assertion b args) ∨
    (site.sibling? callee.node = none ∧ Builtin.ofSpelling? callee.node.written = none ∧
      ∃ qualifier unit fullName, callee.node.qualifier? = some qualifier ∧
        site.scope.resolve? site.program qualifier.written = some (unit, fullName) ∧
        site.scope.arity? unit fullName callee.node.last = some args.length ∧
        (site.call callee args).1 = .callStatic ⟨unit, fullName, callee.node.last⟩ args) := by
  rw [call_eq] at h ⊢
  cases hsibling : site.sibling? callee.node with
  | some arity =>
    simp only [hsibling] at h
    obtain ⟨rfl, hcode⟩ := checked_eq h
    exact Or.inl ⟨rfl, hcode⟩
  | none =>
    simp only [hsibling] at h
    cases hbuiltin : Builtin.ofSpelling? callee.node.written with
    | some b =>
      simp only [hbuiltin] at h
      obtain ⟨harity, hcode⟩ := checked_eq h
      exact Or.inr (Or.inl ⟨rfl, b, rfl, harity, hcode⟩)
    | none =>
      simp only [hbuiltin] at h
      cases hqualifier : callee.node.qualifier? with
      | none =>
        rw [hqualifier] at h
        cases h
      | some qualifier =>
        rw [hqualifier] at h
        obtain ⟨unit, fullName, hresolve, harity, hcode⟩ := staticCall_eq h
        exact Or.inr (Or.inr ⟨rfl, rfl, qualifier, unit, fullName, rfl, hresolve, harity, hcode⟩)

/-- What lowered code may refer to, with so many slots. -/
def condition (site : Site) (slots : Nat) : Code.Condition where
  slot n := n < slots
  field n := n < site.type.fields.length
  sibling name count := site.type.arity? name = some count
  static target count :=
    site.scope.arity? target.unit target.typeName target.method = some count
  assertion b count := b.arity = count

theorem lt_of_getElem?_eq {xs : List String} {i : Nat} {x : String} (h : xs[i]? = some x) :
    i < xs.length := (List.getElem?_eq_some_iff.1 h).1

theorem call_meets {callee : Spanned QualifiedName} {args : List Code.Expr} {slots : Nat}
    (h : (site.call callee args).2 = []) (hargs : Code.ExprsMeet (site.condition slots) args) :
    (site.call callee args).1.Meets (site.condition slots) := by
  rcases call_cases h with ⟨hsibling, hcode⟩ | ⟨_, b, _, harity, hcode⟩ |
    ⟨_, _, qualifier, unit, fullName, _, _, harity, hcode⟩
  · rw [hcode]
    refine ⟨?_, hargs⟩
    unfold sibling? at hsibling
    split at hsibling
    · exact hsibling
    · cases hsibling
  · rw [hcode]
    exact ⟨harity, hargs⟩
  · rw [hcode]
    exact ⟨harity, hargs⟩

mutual

theorem expr_meets {slots : Nat} (hslots : locals.length ≤ slots) :
    ∀ e : Source.Expr, (site.expr locals e).2 = [] →
      (site.expr locals e).1.Meets (site.condition slots)
  | .constant _ _, _ => trivial
  | .name _ name, h => by
    unfold expr at h ⊢
    cases hstorage : site.storage? locals name with
    | none =>
      rw [hstorage] at h
      cases h
    | some storage =>
      rcases storage with slot | index
      · exact Nat.lt_of_lt_of_le (lt_of_getElem?_eq (storage?_slot hstorage)) hslots
      · exact lt_of_getElem?_eq (storage?_field hstorage).2
  | .unary _ _ operand, h => expr_meets hslots operand h
  | .binary _ _ left right, h => by
    obtain ⟨hleft, hright⟩ := List.append_eq_nil_iff.1 h
    exact ⟨expr_meets hslots left hleft, expr_meets hslots right hright⟩
  | .call _ callee arguments, h => by
    obtain ⟨hargs, hcall⟩ := List.append_eq_nil_iff.1 h
    exact call_meets hcall (exprs_meet hslots arguments hargs)
  | .paren _ inner, h => expr_meets hslots inner h

theorem exprs_meet {slots : Nat} (hslots : locals.length ≤ slots) :
    ∀ es : List Source.Expr, (site.exprs locals es).2 = [] →
      Code.ExprsMeet (site.condition slots) (site.exprs locals es).1
  | [], _ => trivial
  | e :: rest, h => by
    obtain ⟨hhere, hlater⟩ := List.append_eq_nil_iff.1 h
    exact ⟨expr_meets hslots e hhere, exprs_meet hslots rest hlater⟩

end

theorem stmt_bind {span : Span} {name : String} {value : Source.Expr}
    (h : (site.stmt locals (.bind span name value)).faults = []) :
    name ∉ locals ∧ (site.expr locals value).2 = [] ∧
      site.stmt locals (.bind span name value) =
        ⟨[.setLocal locals.length (site.expr locals value).1], locals ++ [name], []⟩ := by
  unfold stmt at h ⊢
  by_cases hmem : locals.contains name = true
  · simp only [hmem, if_true, Lowered.fail] at h
    exact absurd (List.append_eq_nil_iff.1 h).2 (by simp)
  · simp only [hmem] at h ⊢
    have hvalue : (site.expr locals value).2 = [] := h
    exact ⟨by simpa using hmem, hvalue, by rw [hvalue]; rfl⟩

theorem stmt_assign {span : Span} {target : String} {value : Source.Expr}
    (h : (site.stmt locals (.assign span target value)).faults = []) :
    (site.expr locals value).2 = [] ∧
      ((∃ slot, site.storage? locals target = some (.local slot) ∧
        site.stmt locals (.assign span target value) =
          ⟨[.setLocal slot (site.expr locals value).1], locals, []⟩) ∨
      (∃ index, site.storage? locals target = some (.field index) ∧
        site.stmt locals (.assign span target value) =
          ⟨[.setField index (site.expr locals value).1], locals, []⟩)) := by
  unfold stmt at h ⊢
  cases hstorage : site.storage? locals target with
  | none =>
    simp only [hstorage, Lowered.fail] at h
    exact absurd (List.append_eq_nil_iff.1 h).2 (by simp)
  | some storage =>
    simp only [hstorage] at h ⊢
    rcases storage with slot | index
    · have hvalue : (site.expr locals value).2 = [] := h
      exact ⟨hvalue, Or.inl ⟨slot, rfl, by rw [hvalue]; rfl⟩⟩
    · have hvalue : (site.expr locals value).2 = [] := h
      exact ⟨hvalue, Or.inr ⟨index, rfl, by rw [hvalue]; rfl⟩⟩

mutual

theorem stmt_locals : ∀ (locals : List String) (s : Source.Stmt),
    (site.stmt locals s).faults = [] →
      (site.stmt locals s).locals = locals ++ declaredBy s
  | _, .bind .., h => by rw [(stmt_bind h).2.2, declaredBy]
  | _, .assign .., h => by
    rcases (stmt_assign h).2 with ⟨_, _, heq⟩ | ⟨_, _, heq⟩ <;>
      rw [heq, declaredBy, List.append_nil]
  | _, .return _ none, _ => (List.append_nil _).symm
  | _, .return _ (some _), _ => (List.append_nil _).symm
  | locals, .ifThen _ _ body, h =>
    block_locals locals body (List.append_eq_nil_iff.1 h).2
  | locals, .ifElse _ _ body otherwise, h => by
    obtain ⟨hfirst, hsecond⟩ := List.append_eq_nil_iff.1 h
    have hbody := block_locals locals body (List.append_eq_nil_iff.1 hfirst).2
    have hotherwise := block_locals _ otherwise hsecond
    rw [hbody, List.append_assoc] at hotherwise
    rw [declaredBy, ← hotherwise, ← hbody]
    rfl
  | locals, .while _ _ body, h =>
    block_locals locals body (List.append_eq_nil_iff.1 h).2
  | _, .expr .., _ => (List.append_nil _).symm

theorem block_locals : ∀ (locals : List String) (ss : List Source.Stmt),
    (site.block locals ss).faults = [] →
      (site.block locals ss).locals = locals ++ declaredIn ss
  | _, [], _ => (List.append_nil _).symm
  | locals, s :: rest, h => by
    obtain ⟨hhere, hlater⟩ := List.append_eq_nil_iff.1 h
    have hfirst := stmt_locals locals s hhere
    have hrest := block_locals _ rest hlater
    rw [hfirst, List.append_assoc] at hrest
    rw [declaredIn, ← hrest, ← hfirst]
    rfl

end

theorem length_le_block {ss : List Source.Stmt} (h : (site.block locals ss).faults = []) :
    locals.length ≤ (site.block locals ss).locals.length := by
  rw [block_locals locals ss h, List.length_append]
  exact Nat.le_add_right _ _

mutual

/-- Lowered statements stay below any number of slots that is enough for the
locals at their end. -/
theorem stmt_meets {slots : Nat} : ∀ (locals : List String) (s : Source.Stmt),
    (site.stmt locals s).faults = [] → (site.stmt locals s).locals.length ≤ slots →
      Code.StmtsMeet (site.condition slots) (site.stmt locals s).code
  | locals, .bind _ name value, h, hslots => by
    obtain ⟨_, hvalue, heq⟩ := stmt_bind h
    rw [heq] at hslots ⊢
    rw [List.length_append, List.length_singleton] at hslots
    exact ⟨⟨hslots, expr_meets (by omega) value hvalue⟩, trivial⟩
  | locals, .assign _ target value, h, hslots => by
    obtain ⟨hvalue, ⟨slot, hstorage, heq⟩ | ⟨index, hstorage, heq⟩⟩ := stmt_assign h
    · rw [heq] at hslots ⊢
      have hlt := lt_of_getElem?_eq (storage?_slot hstorage)
      exact ⟨⟨Nat.lt_of_lt_of_le hlt hslots, expr_meets hslots value hvalue⟩, trivial⟩
    · rw [heq] at hslots ⊢
      have hlt := lt_of_getElem?_eq (storage?_field hstorage).2
      exact ⟨⟨hlt, expr_meets hslots value hvalue⟩, trivial⟩
  | _, .return _ none, _, _ => ⟨trivial, trivial⟩
  | _, .return _ (some value), h, hslots => ⟨expr_meets hslots value h, trivial⟩
  | locals, .ifThen _ condition body, h, hslots => by
    obtain ⟨htest, hbody⟩ := List.append_eq_nil_iff.1 h
    have hlocals := Nat.le_trans (length_le_block hbody) hslots
    exact ⟨⟨expr_meets hlocals condition htest, block_meets locals body hbody hslots, trivial⟩,
      trivial⟩
  | locals, .ifElse _ condition body otherwise, h, hslots => by
    obtain ⟨hfirst, hotherwise⟩ := List.append_eq_nil_iff.1 h
    obtain ⟨htest, hbody⟩ := List.append_eq_nil_iff.1 hfirst
    have hbodySlots := Nat.le_trans (length_le_block hotherwise) hslots
    have hlocals := Nat.le_trans (length_le_block hbody) hbodySlots
    exact ⟨⟨expr_meets hlocals condition htest, block_meets locals body hbody hbodySlots,
      block_meets _ otherwise hotherwise hslots⟩, trivial⟩
  | locals, .while _ condition body, h, hslots => by
    obtain ⟨htest, hbody⟩ := List.append_eq_nil_iff.1 h
    have hlocals := Nat.le_trans (length_le_block hbody) hslots
    exact ⟨⟨expr_meets hlocals condition htest, block_meets locals body hbody hslots⟩, trivial⟩
  | _, .expr _ value, h, hslots => ⟨expr_meets hslots value h, trivial⟩

theorem block_meets {slots : Nat} : ∀ (locals : List String) (ss : List Source.Stmt),
    (site.block locals ss).faults = [] → (site.block locals ss).locals.length ≤ slots →
      Code.StmtsMeet (site.condition slots) (site.block locals ss).code
  | _, [], _, _ => trivial
  | locals, s :: rest, h, hslots => by
    obtain ⟨hhere, hlater⟩ := List.append_eq_nil_iff.1 h
    have hfirst := Nat.le_trans (length_le_block hlater) hslots
    exact Code.stmtsMeet_append.2
      ⟨stmt_meets locals s hhere hfirst, block_meets _ rest hlater hslots⟩

end

mutual

/-- No variable is declared under a name that is taken. -/
theorem stmt_nodup : ∀ (locals : List String) (s : Source.Stmt),
    (site.stmt locals s).faults = [] → locals.Nodup → (site.stmt locals s).locals.Nodup
  | locals, .bind _ name _, h, hnodup => by
    obtain ⟨hnew, _, heq⟩ := stmt_bind h
    rw [heq, List.nodup_append]
    refine ⟨hnodup, List.nodup_singleton name, ?_⟩
    intro a ha b hb hab
    rw [List.mem_singleton.1 hb] at hab
    exact hnew (hab ▸ ha)
  | _, .assign .., h, hnodup => by
    rcases (stmt_assign h).2 with ⟨_, _, heq⟩ | ⟨_, _, heq⟩ <;> rw [heq] <;> exact hnodup
  | _, .return _ none, _, hnodup => hnodup
  | _, .return _ (some _), _, hnodup => hnodup
  | locals, .ifThen _ _ body, h, hnodup =>
    block_nodup locals body (List.append_eq_nil_iff.1 h).2 hnodup
  | locals, .ifElse _ _ body otherwise, h, hnodup => by
    obtain ⟨hfirst, hsecond⟩ := List.append_eq_nil_iff.1 h
    exact block_nodup _ otherwise hsecond
      (block_nodup locals body (List.append_eq_nil_iff.1 hfirst).2 hnodup)
  | locals, .while _ _ body, h, hnodup =>
    block_nodup locals body (List.append_eq_nil_iff.1 h).2 hnodup
  | _, .expr .., _, hnodup => hnodup

theorem block_nodup : ∀ (locals : List String) (ss : List Source.Stmt),
    (site.block locals ss).faults = [] → locals.Nodup → (site.block locals ss).locals.Nodup
  | _, [], _, hnodup => hnodup
  | locals, s :: rest, h, hnodup => by
    obtain ⟨hhere, hlater⟩ := List.append_eq_nil_iff.1 h
    exact block_nodup _ rest hlater (stmt_nodup locals s hhere hnodup)

end

mutual

/-- A statement becomes one statement, whose code sets the next slots for the
variables that the statement declares. -/
theorem stmt_slots : ∀ (locals : List String) (s : Source.Stmt),
    (site.stmt locals s).faults = [] → ∃ code, (site.stmt locals s).code = [code] ∧
      slotsBy s code = (declaredBy s).zipIdx locals.length
  | _, .bind .., h => by
    rw [(stmt_bind h).2.2]
    exact ⟨_, rfl, rfl⟩
  | _, .assign .., h => by
    rcases (stmt_assign h).2 with ⟨_, _, heq⟩ | ⟨_, _, heq⟩ <;> rw [heq] <;> exact ⟨_, rfl, rfl⟩
  | _, .return _ none, _ => ⟨_, rfl, rfl⟩
  | _, .return _ (some _), _ => ⟨_, rfl, rfl⟩
  | locals, .ifThen _ _ body, h =>
    ⟨_, rfl, block_slots locals body (List.append_eq_nil_iff.1 h).2⟩
  | locals, .ifElse _ _ body otherwise, h => by
    obtain ⟨hfirst, hsecond⟩ := List.append_eq_nil_iff.1 h
    have hbody := (List.append_eq_nil_iff.1 hfirst).2
    refine ⟨_, rfl, ?_⟩
    rw [slotsBy, block_slots locals body hbody, block_slots _ otherwise hsecond,
      block_locals locals body hbody, declaredBy, List.zipIdx_append, List.length_append]
  | locals, .while _ _ body, h =>
    ⟨_, rfl, block_slots locals body (List.append_eq_nil_iff.1 h).2⟩
  | _, .expr .., _ => ⟨_, rfl, rfl⟩

theorem block_slots : ∀ (locals : List String) (ss : List Source.Stmt),
    (site.block locals ss).faults = [] →
      slotsIn ss (site.block locals ss).code = (declaredIn ss).zipIdx locals.length
  | _, [], _ => rfl
  | locals, s :: rest, h => by
    obtain ⟨hhere, hlater⟩ := List.append_eq_nil_iff.1 h
    obtain ⟨code, hcode, hslots⟩ := stmt_slots locals s hhere
    have hrest := block_slots _ rest hlater
    rw [stmt_locals locals s hhere] at hrest
    rw [declaredIn, List.zipIdx_append, ← hslots, ← List.length_append, ← hrest,
      ← stmt_locals locals s hhere]
    change slotsIn (s :: rest) ((site.stmt locals s).code ++ _) = _
    rw [hcode]
    rfl

end

end Site

end TestBench.Compile
