import TestBench.Proofs.LoweredCode
import TestBench.Proofs.StateRuns

/-!
Lowered code means what its source means. A frame is a view of an activation: it
lists the values of the fields and of all locals of a method in the order of
their names. Seen through this view, a slot is the name at its place, and since
no name has two places, setting a slot is setting the name. Expressions,
statements and initial values are followed from there, with calls that agree.
-/
namespace TestBench

namespace Direct

open Machine (Value answer)

def Class.fieldNames (c : Class) : List String := c.decl.fields.map (·.name)

/-- The instance with these values in its fields. -/
def Class.instanceOf (c : Class) (unit : String) (fields : Bindings) : Machine.Instance :=
  ⟨unit, c.fullName, c.fieldNames.map fields⟩

/-- The frame that has a slot for each of the names. -/
def Class.frameOf (c : Class) (unit : String) (names : List String) (a : Activation) :
    Machine.Frame :=
  ⟨c.instanceOf unit a.fields, names.map a.locals⟩

theorem map_update {names : List String} (hnodup : names.Nodup) {slot : Nat} {name : String}
    (h : names[slot]? = some name) (s : Bindings) (v : Value) :
    names.map (Function.update s name v) = (names.map s).set slot v := by
  obtain ⟨hlt, hname⟩ := List.getElem?_eq_some_iff.1 h
  refine List.ext_getElem (by simp) fun i hi _ => ?_
  rw [List.length_map] at hi
  rw [List.getElem_map, List.getElem_set, List.getElem_map]
  by_cases heq : slot = i
  · subst heq
    rw [if_pos rfl, hname, Function.update_self]
  · have hne : names[i] ≠ name := by
      intro hsame
      rw [← hname] at hsame
      exact heq ((hnodup.getElem_inj_iff).1 hsame).symm
    rw [if_neg heq, Function.update_of_ne hne]

theorem readSlot_map {names : List String} {slot : Nat} {name : String}
    (h : names[slot]? = some name) (s : Bindings) :
    Machine.readSlot (names.map s) slot = .ok (s name) := by
  rw [Machine.readSlot, List.getElem?_map, h]
  rfl

theorem writeSlot_map {names : List String} (hnodup : names.Nodup) {slot : Nat} {name : String}
    (h : names[slot]? = some name) (s : Bindings) (v : Value) :
    Machine.writeSlot (names.map s) slot v = .ok (names.map (Function.update s name v)) := by
  have hlt : slot < (names.map s).length := by
    rw [List.length_map]
    exact (List.getElem?_eq_some_iff.1 h).1
  rw [Machine.writeSlot, if_pos hlt, map_update hnodup h]

/-- Names that are bound to as many values are mapped to these values. -/
theorem map_bound {names : List String} (hnodup : names.Nodup) {values : List Value}
    (hlength : names.length = values.length) : names.map (bound names values) = values := by
  induction names generalizing values with
  | nil => exact (List.length_eq_zero_iff.1 hlength.symm).symm
  | cons name rest ih =>
    obtain ⟨v, more, rfl⟩ := List.exists_cons_of_length_eq_add_one hlength.symm
    obtain ⟨hnew, hrest⟩ := List.nodup_cons.1 hnodup
    have htail : rest.map (bound (name :: rest) (v :: more)) = rest.map (bound rest more) := by
      refine List.map_congr_left fun other hother => ?_
      have hne : other ≠ name := fun heq => hnew (heq ▸ hother)
      simp [bound, List.lookup_cons, beq_eq_false_iff_ne.2 hne]
    rw [List.map_cons, htail, ih hrest (by simpa using hlength)]
    simp [bound]

theorem bound_of_not_mem {names : List String} {name : String} (h : name ∉ names)
    (values : List Value) : bound names values name = .nothing := by
  induction names generalizing values with
  | nil => rfl
  | cons first rest ih =>
    have hne := List.ne_of_not_mem_cons h
    have hrest := List.not_mem_of_not_mem_cons h
    cases values with
    | nil => rfl
    | cons v more =>
      rw [← ih hrest more]
      simp [bound, List.lookup_cons, beq_eq_false_iff_ne.2 hne]

/-- All operators but two evaluate both operands. -/
theorem eval_binary (c : Class) (calls : Calls) (declared : List String) (span : Span)
    (left right : Source.Expr) {op : BinaryOp} (hand : op ≠ .and) (hor : op ≠ .or) :
    eval c calls declared (.binary span op left right) = (do
      let l ← eval c calls declared left
      let r ← eval c calls declared right
      answer (Machine.applyBinary op l r)) := by
  cases op <;> first | contradiction | rfl

end Direct

namespace Compile

open Direct (Activation Bindings)
open Machine (Run Simulates Value answer)
open Source (declaredBy declaredIn)

/-- The site of code in the class. -/
structure Site.IsOf (site : Site) (c : Direct.Class) : Prop where
  program_eq : site.program = c.program
  fields_eq : site.type.fields = c.fieldNames
  fields_nodup : c.fieldNames.Nodup
  arity?_eq : ∀ name, site.type.arity? name = (c.method? name).map (·.parameters.length)

/-- Calls that give the same whether they are carried out on names or on slots. Calls of other
types have to agree where the scope knows the method. -/
structure Agree (site : Site) (c : Direct.Class) (calls : Direct.Calls)
    (calls' : Machine.Calls) : Prop where
  sibling : ∀ name args,
    Simulates (c.instanceOf site.scope.unitName) (calls.sibling name args) (calls'.self name args)
  other : ∀ qualifier unit fullName method args,
    site.scope.resolve? site.program qualifier.written = some (unit, fullName) →
    (site.scope.arity? unit fullName method).isSome →
    calls'.static ⟨unit, fullName, method⟩ args = calls.other qualifier method args

/-- Two computations that agree on activations and their frames. -/
abbrev Match {α : Type} (site : Site) (c : Direct.Class) (names : List String)
    (r : Run Activation α) (r' : Run Machine.Frame α) : Prop :=
  Simulates (c.frameOf site.scope.unitName names) r r'

namespace Site

variable {site : Site} {c : Direct.Class} {calls : Direct.Calls} {calls' : Machine.Calls}
  {names locals : List String}

theorem onSelf_match {α : Type} {r : Run Bindings α} {r' : Run Machine.Instance α}
    (h : Simulates (c.instanceOf site.scope.unitName) r r') :
    Match site c names (Direct.onFields r) (Machine.onSelf r') := by
  intro a
  have hself : (c.frameOf site.scope.unitName names a).self =
      c.instanceOf site.scope.unitName a.fields := rfl
  unfold Machine.onSelf Direct.onFields
  rw [hself, h a.fields]
  cases r a.fields <;> rfl

theorem getElem?_of_begins {slot : Nat} {name : String} (hbegins : locals <+: names)
    (h : locals[slot]? = some name) : names[slot]? = some name := by
  obtain ⟨rest, rfl⟩ := hbegins
  rw [List.getElem?_append_left (lt_of_getElem?_eq h), h]

theorem sibling?_isSome (hsite : site.IsOf c) (name : QualifiedName) :
    (site.sibling? name).isSome ↔ name.isSimple ∧ (c.method? name.last).isSome := by
  unfold sibling?
  split
  · next hsimple => rw [hsite.arity?_eq, Option.isSome_map, and_iff_right hsimple]
  · next hsimple => simp [hsimple]

/-- A call does the same with the values of its arguments, whichever form it was lowered to. -/
theorem call_match (hsite : site.IsOf c) (hcalls : Agree site c calls calls')
    {callee : Spanned QualifiedName} {codes : List Code.Expr} {r : Run Activation (List Value)}
    (hargs : Match site c names r (Machine.evalAll calls' codes))
    (h : (site.call callee codes).2 = []) :
    Match site c names (do
        let args ← r
        Direct.callee c calls callee.node args)
      (Machine.eval calls' (site.call callee codes).1) := by
  have hsibling? := sibling?_isSome hsite callee.node
  rcases call_cases h with ⟨hsibling, hcode⟩ | ⟨hsibling, b, hbuiltin, _, hcode⟩ |
    ⟨hsibling, hbuiltin, qualifier, unit, fullName, hqualifier, hresolve, harity, hcode⟩
  · rw [hcode]
    refine Simulates.bind hargs fun args => ?_
    rw [hsibling] at hsibling?
    rw [Direct.callee, if_pos (hsibling?.1 rfl)]
    exact onSelf_match (hcalls.sibling _ args)
  · rw [hcode]
    refine Simulates.bind hargs fun args => ?_
    rw [hsibling] at hsibling?
    rw [Direct.callee, if_neg (by simpa using hsibling?), hbuiltin]
    exact Simulates.answer _
  · rw [hcode]
    refine Simulates.bind hargs fun args => ?_
    rw [hsibling] at hsibling?
    rw [Direct.callee, if_neg (by simpa using hsibling?), hbuiltin, hqualifier,
      hcalls.other qualifier unit fullName callee.node.last args hresolve (by rw [harity]; rfl)]
    simp only
    cases calls.other qualifier callee.node.last args with
    | none => exact Simulates.outOfFuel
    | some result => exact Simulates.answer result

theorem name_match (hsite : site.IsOf c) (hbegins : locals <+: names) {span : Span} {name : String}
    (h : (site.expr locals (.name span name)).2 = []) :
    Match site c names (Direct.eval c calls locals (.name span name))
      (Machine.eval calls' (site.expr locals (.name span name)).1) := by
  unfold expr at h ⊢
  cases hstorage : site.storage? locals name with
  | none =>
    rw [hstorage] at h
    cases h
  | some storage =>
    rcases storage with slot | index
    · have hslot := storage?_slot hstorage
      intro a
      have hread := Direct.readSlot_map (getElem?_of_begins hbegins hslot) a.locals
      have hget : a.get locals name = a.locals name := if_pos (List.mem_of_getElem? hslot)
      rw [← hget] at hread
      exact congrArg (fun result => some (result, c.frameOf site.scope.unitName names a)) hread
    · obtain ⟨hnew, hindex⟩ := storage?_field hstorage
      rw [hsite.fields_eq] at hindex
      intro a
      have hread := Direct.readSlot_map hindex a.fields
      have hget : a.get locals name = a.fields name := if_neg hnew
      rw [← hget] at hread
      exact congrArg (fun result => some (result, c.frameOf site.scope.unitName names a)) hread

mutual

theorem expr_match (hsite : site.IsOf c) (hcalls : Agree site c calls calls')
    (hbegins : locals <+: names) : ∀ e : Source.Expr, (site.expr locals e).2 = [] →
      Match site c names (Direct.eval c calls locals e) (Machine.eval calls' (site.expr locals e).1)
  | .constant _ value, _ => Simulates.pure _
  | .name _ _, h => name_match hsite hbegins h
  | .unary _ op operand, h =>
    Simulates.bind (expr_match hsite hcalls hbegins operand h) fun v => Simulates.answer _
  | .binary _ op left right, h => by
    obtain ⟨hleft, hright⟩ := List.append_eq_nil_iff.1 h
    have hl := expr_match hsite hcalls hbegins left hleft
    have hr := expr_match hsite hcalls hbegins right hright
    have hrest : Match site c names
        (do
          let v ← Direct.eval c calls locals right
          return Value.boolean (← answer (Machine.truth v)))
        (do
          let v ← Machine.eval calls' (site.expr locals right).1
          return Value.boolean (← answer (Machine.truth v))) :=
      Simulates.bind hr fun v => Simulates.bind (Simulates.answer _) fun b => Simulates.pure _
    by_cases hand : op = .and
    · subst hand
      refine Simulates.bind hl fun v => Simulates.bind (Simulates.answer _) fun b => ?_
      cases b
      · exact Simulates.pure _
      · exact hrest
    · by_cases hor : op = .or
      · subst hor
        refine Simulates.bind hl fun v => Simulates.bind (Simulates.answer _) fun b => ?_
        cases b
        · exact hrest
        · exact Simulates.pure _
      · rw [Direct.eval_binary c calls locals _ left right hand hor]
        change Match site c names _ (Machine.eval calls' (.binary _ op _))
        rw [Machine.eval_binary calls' _ _ hand hor]
        exact Simulates.bind hl fun l => Simulates.bind hr fun r => Simulates.answer _
  | .call _ callee arguments, h => by
    obtain ⟨hargs, hcall⟩ := List.append_eq_nil_iff.1 h
    exact call_match hsite hcalls (exprs_match hsite hcalls hbegins arguments hargs) hcall
  | .paren _ inner, h => expr_match hsite hcalls hbegins inner h

theorem exprs_match (hsite : site.IsOf c) (hcalls : Agree site c calls calls')
    (hbegins : locals <+: names) : ∀ es : List Source.Expr, (site.exprs locals es).2 = [] →
      Match site c names (Direct.evalAll c calls locals es)
        (Machine.evalAll calls' (site.exprs locals es).1)
  | [], _ => Simulates.pure _
  | e :: rest, h => by
    obtain ⟨hhere, hlater⟩ := List.append_eq_nil_iff.1 h
    exact Simulates.bind (expr_match hsite hcalls hbegins e hhere) fun v =>
      Simulates.bind (exprs_match hsite hcalls hbegins rest hlater) fun vs => Simulates.pure _

end

theorem condition_match (hsite : site.IsOf c) (hcalls : Agree site c calls calls')
    (hbegins : locals <+: names) {e : Source.Expr} (h : (site.expr locals e).2 = []) :
    Match site c names (Direct.condition c calls locals e)
      (Machine.condition calls' (site.expr locals e).1) :=
  Simulates.bind (expr_match hsite hcalls hbegins e h) fun _ => Simulates.answer _

theorem loop_match {test : Run Activation Bool} {body : Run Activation (Option Value)}
    {test' : Run Machine.Frame Bool} {body' : Run Machine.Frame (Option Value)}
    (htest : Match site c names test test') (hbody : Match site c names body body') (fuel : Nat) :
    Match site c names (Direct.loop test body fuel) (Machine.repeatWhile test' body' fuel) := by
  induction fuel with
  | zero => exact Simulates.outOfFuel
  | succ fuel ih =>
    rw [Machine.repeatWhile_succ]
    refine Simulates.bind htest fun b => ?_
    cases b
    · exact Simulates.pure _
    refine Simulates.bind hbody fun v => ?_
    cases v
    · exact ih
    · exact Simulates.pure _

theorem setLocal_match (hnodup : names.Nodup) {slot : Nat} {name : String}
    (h : names[slot]? = some name) {r : Run Activation Value} {code : Code.Expr}
    (hvalue : Match site c names r (Machine.eval calls' code)) (fuel : Nat) :
    Match site c names (do
        let v ← r
        modify fun a => { a with locals := Function.update a.locals name v }
        return none)
      (Machine.exec calls' fuel (.setLocal slot code)) := by
  refine Simulates.bind hvalue fun v => ?_
  intro a
  have hwrite := Direct.writeSlot_map hnodup h a.locals v
  have hlocals : (c.frameOf site.scope.unitName names a).locals = names.map a.locals := rfl
  simp only [Machine.bind_run, Machine.get_run, Machine.answer_run, Machine.modify_run,
    Machine.pure_run, hlocals, hwrite]
  rfl

theorem setField_match (hsite : site.IsOf c) {index : Nat} {name : String}
    (h : c.fieldNames[index]? = some name) {r : Run Activation Value} {code : Code.Expr}
    (hvalue : Match site c names r (Machine.eval calls' code)) (fuel : Nat) :
    Match site c names (do
        let v ← r
        modify fun a => { a with fields := Function.update a.fields name v }
        return none)
      (Machine.exec calls' fuel (.setField index code)) := by
  refine Simulates.bind hvalue fun v => ?_
  intro a
  have hwrite := Direct.writeSlot_map hsite.fields_nodup h a.fields v
  have hfields : (c.frameOf site.scope.unitName names a).self.fields =
    c.fieldNames.map a.fields := rfl
  simp only [Machine.bind_run, Machine.get_run, Machine.answer_run, Machine.modify_run,
    Machine.pure_run, hfields, hwrite]
  rfl

theorem assign_match (hsite : site.IsOf c) (hcalls : Agree site c calls calls')
    (hnodup : names.Nodup) (hbegins : locals <+: names) {span : Span} {target : String}
    {value : Source.Expr} (fuel : Nat)
    (h : (site.stmt locals (.assign span target value)).faults = []) :
    Match site c names (Direct.exec c calls fuel locals (.assign span target value))
      (Machine.execAll calls' fuel (site.stmt locals (.assign span target value)).code) := by
  obtain ⟨hvalue, ⟨slot, hstorage, heq⟩ | ⟨index, hstorage, heq⟩⟩ := stmt_assign h
  · have hslot := storage?_slot hstorage
    have hput : ∀ v, (fun a : Activation => a.put locals target v) =
        fun a => { a with locals := Function.update a.locals target v } :=
      fun v => funext fun a => if_pos (List.mem_of_getElem? hslot)
    rw [heq, Machine.execAll_singleton, Direct.exec]
    simp only [hput]
    exact setLocal_match hnodup (getElem?_of_begins hbegins hslot)
      (expr_match hsite hcalls hbegins value hvalue) fuel
  · obtain ⟨hnew, hindex⟩ := storage?_field hstorage
    rw [hsite.fields_eq] at hindex
    have hput : ∀ v, (fun a : Activation => a.put locals target v) =
        fun a => { a with fields := Function.update a.fields target v } :=
      fun v => funext fun a => if_neg hnew
    rw [heq, Machine.execAll_singleton, Direct.exec]
    simp only [hput]
    exact setField_match hsite hindex (expr_match hsite hcalls hbegins value hvalue) fuel

theorem prefix_stmt {s : Source.Stmt} (h : (site.stmt locals s).faults = []) :
    locals <+: (site.stmt locals s).locals := by
  rw [stmt_locals locals s h]
  exact List.prefix_append _ _

theorem prefix_block {ss : List Source.Stmt} (h : (site.block locals ss).faults = []) :
    locals <+: (site.block locals ss).locals := by
  rw [block_locals locals ss h]
  exact List.prefix_append _ _

mutual

theorem stmt_match (hsite : site.IsOf c) (hcalls : Agree site c calls calls')
    (hnodup : names.Nodup) (fuel : Nat) : ∀ (locals : List String) (s : Source.Stmt),
    (site.stmt locals s).faults = [] → (site.stmt locals s).locals <+: names →
      Match site c names (Direct.exec c calls fuel locals s)
        (Machine.execAll calls' fuel (site.stmt locals s).code)
  | locals, .bind span name value, h, hnames => by
    have hbegins := (prefix_stmt h).trans hnames
    obtain ⟨_, hvalue, heq⟩ := stmt_bind h
    rw [heq] at hnames
    have hslot : names[locals.length]? = some name :=
      getElem?_of_begins hnames (by rw [List.getElem?_append_right (Nat.le_refl _)]; simp)
    rw [heq, Machine.execAll_singleton]
    exact setLocal_match hnodup hslot (expr_match hsite hcalls hbegins value hvalue) fuel
  | locals, .assign .., h, hnames =>
    assign_match hsite hcalls hnodup ((prefix_stmt h).trans hnames) fuel h
  | locals, .return _ none, _, _ => by
    change Match site c names _ (Machine.execAll calls' fuel [.return none])
    rw [Machine.execAll_singleton]
    exact Simulates.pure _
  | locals, .return _ (some value), h, hnames => by
    change Match site c names _ (Machine.execAll calls' fuel [.return (some _)])
    rw [Machine.execAll_singleton]
    exact Simulates.bind (expr_match hsite hcalls hnames value h) fun _ => Simulates.pure _
  | locals, .ifThen _ condition body, h, hnames => by
    obtain ⟨htest, hbody⟩ := List.append_eq_nil_iff.1 h
    change Match site c names _ (Machine.execAll calls' fuel [.cond _ _ []])
    rw [Machine.execAll_singleton]
    refine Simulates.bind
      (condition_match hsite hcalls ((prefix_block hbody).trans hnames) htest) fun b => ?_
    cases b
    · exact Simulates.pure _
    · exact block_match hsite hcalls hnodup fuel locals body hbody hnames
  | locals, .ifElse _ condition body otherwise, h, hnames => by
    obtain ⟨hfirst, hotherwise⟩ := List.append_eq_nil_iff.1 h
    obtain ⟨htest, hbody⟩ := List.append_eq_nil_iff.1 hfirst
    have hbodyNames := (prefix_block hotherwise).trans hnames
    change Match site c names _ (Machine.execAll calls' fuel [.cond _ _ _])
    rw [Machine.execAll_singleton]
    refine Simulates.bind
      (condition_match hsite hcalls ((prefix_block hbody).trans hbodyNames) htest) fun b => ?_
    cases b
    · have hrest := block_match hsite hcalls hnodup fuel _ otherwise hotherwise hnames
      rw [block_locals locals body hbody] at hrest ⊢
      exact hrest
    · exact block_match hsite hcalls hnodup fuel locals body hbody hbodyNames
  | locals, .while _ condition body, h, hnames => by
    obtain ⟨htest, hbody⟩ := List.append_eq_nil_iff.1 h
    change Match site c names _ (Machine.execAll calls' fuel [.while _ _])
    rw [Machine.execAll_singleton]
    exact loop_match (condition_match hsite hcalls ((prefix_block hbody).trans hnames) htest)
      (block_match hsite hcalls hnodup fuel locals body hbody hnames) fuel
  | locals, .expr _ value, h, hnames => by
    change Match site c names _ (Machine.execAll calls' fuel [.expr _])
    rw [Machine.execAll_singleton]
    exact Simulates.bind (expr_match hsite hcalls hnames value h) fun _ => Simulates.pure _

theorem block_match (hsite : site.IsOf c) (hcalls : Agree site c calls calls')
    (hnodup : names.Nodup) (fuel : Nat) : ∀ (locals : List String) (ss : List Source.Stmt),
    (site.block locals ss).faults = [] → (site.block locals ss).locals <+: names →
      Match site c names (Direct.execAll c calls fuel locals ss)
        (Machine.execAll calls' fuel (site.block locals ss).code)
  | _, [], _, _ => Simulates.pure _
  | locals, s :: rest, h, hnames => by
    obtain ⟨hhere, hlater⟩ := List.append_eq_nil_iff.1 h
    have hfirst := (prefix_block hlater).trans hnames
    have hrest := block_match hsite hcalls hnodup fuel _ rest hlater hnames
    rw [stmt_locals locals s hhere] at hrest
    change Match site c names _ (Machine.execAll calls' fuel ((site.stmt locals s).code ++ _))
    rw [Machine.execAll_append, Direct.execAll]
    refine Simulates.bind (stmt_match hsite hcalls hnodup fuel locals s hhere hfirst) fun v => ?_
    cases v
    · rw [stmt_locals locals s hhere]
      exact hrest
    · exact Simulates.pure _

end

/-- The initial values of the fields after those that are `done` are set alike. -/
theorem setFields_match (hsite : site.IsOf c) (hcalls : Agree site c calls calls')
    (done : List String) (fields : List Source.Field)
    (hnames : c.fieldNames = done ++ fields.map (·.name))
    (h : ∀ f ∈ fields, (site.field f).2 = []) :
    Match site c [] (Direct.setFields c calls fields)
      (Machine.setFields calls' done.length (fields.map fun f => (site.field f).1)) := by
  induction fields generalizing done with
  | nil => exact Simulates.pure _
  | cons field rest ih =>
    have hindex : c.fieldNames[done.length]? = some field.name := by
      rw [hnames, List.getElem?_append_right (Nat.le_refl _)]
      simp
    refine Simulates.bind (expr_match hsite hcalls (List.prefix_refl []) field.value
      (h field List.mem_cons_self)) fun v => ?_
    refine Simulates.bind (Simulates.modify fun a => ?_) fun _ => ?_
    · have hset := Direct.map_update hsite.fields_nodup hindex a.fields v
      exact congrArg (fun fields => ({ c.frameOf site.scope.unitName [] a with
        self := ⟨site.scope.unitName, c.fullName, fields⟩ } : Machine.Frame)) hset.symm
    · have hrest := ih (done ++ [field.name]) (by simp [hnames])
        fun f hf => h f (List.mem_cons_of_mem _ hf)
      rwa [List.length_append, List.length_singleton] at hrest

end Site

end Compile

end TestBench
