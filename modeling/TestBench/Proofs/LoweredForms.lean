import TestBench.Proofs.WellFormedImages

/-!
The form of lowered code. Every expression of the source stands in the code as
what it is: a constant as this constant, a name as its slot or its field, a call
as a call with as many arguments; and every statement as one statement. There is
no form for a name or a call without a meaning, so nothing that stands in for one
is ever part of code that was lowered without a fault.
-/
namespace TestBench.Compile

open Source (declaredBy declaredIn)

mutual

/-- The code of an expression beside some fields and locals. -/
inductive Lowers (fields locals : List String) : Source.Expr → Code.Expr → Prop
  | constant (span : Span) (value : Constant) :
    Lowers fields locals (.constant span value) (.constant value)
  | local (span : Span) {name : String} {slot : Nat} (h : locals[slot]? = some name) :
    Lowers fields locals (.name span name) (.local slot)
  | field (span : Span) {name : String} {index : Nat} (hlocal : name ∉ locals)
    (h : fields[index]? = some name) : Lowers fields locals (.name span name) (.field index)
  | unary (span : Span) (op : UnaryOp) {operand : Source.Expr} {code : Code.Expr}
    (h : Lowers fields locals operand code) :
    Lowers fields locals (.unary span op operand) (.unary op code)
  | binary (span : Span) (op : BinaryOp) {left right : Source.Expr} {l r : Code.Expr}
    (hleft : Lowers fields locals left l) (hright : Lowers fields locals right r) :
    Lowers fields locals (.binary span op left right) (.binary l op r)
  | sibling (span : Span) (callee : Spanned QualifiedName) {arguments : List Source.Expr}
    {codes : List Code.Expr} (h : LowersAll fields locals arguments codes) :
    Lowers fields locals (.call span callee arguments) (.callSelf callee.node.last codes)
  | assertion (span : Span) {callee : Spanned QualifiedName} {b : Builtin}
    (hbuiltin : Builtin.ofSpelling? callee.node.written = some b) {arguments : List Source.Expr}
    {codes : List Code.Expr} (h : LowersAll fields locals arguments codes) :
    Lowers fields locals (.call span callee arguments) (.assertion b codes)
  | static (span : Span) (callee : Spanned QualifiedName) (unit typeName : String)
    {arguments : List Source.Expr} {codes : List Code.Expr}
    (h : LowersAll fields locals arguments codes) :
    Lowers fields locals (.call span callee arguments)
      (.callStatic ⟨unit, typeName, callee.node.last⟩ codes)
  | paren (span : Span) {inner : Source.Expr} {code : Code.Expr}
    (h : Lowers fields locals inner code) : Lowers fields locals (.paren span inner) code

inductive LowersAll (fields locals : List String) : List Source.Expr → List Code.Expr → Prop
  | nil : LowersAll fields locals [] []
  | cons {e : Source.Expr} {rest : List Source.Expr} {code : Code.Expr} {codes : List Code.Expr}
    (here : Lowers fields locals e code) (later : LowersAll fields locals rest codes) :
    LowersAll fields locals (e :: rest) (code :: codes)

end

mutual

/-- The code of a statement behind the declaration of some locals. -/
inductive StmtLowers (fields : List String) : List String → Source.Stmt → Code.Stmt → Prop
  | bind {locals : List String} (span : Span) (name : String) {value : Source.Expr}
    {code : Code.Expr} (h : Lowers fields locals value code) :
    StmtLowers fields locals (.bind span name value) (.setLocal locals.length code)
  | assignLocal {locals : List String} (span : Span) {target : String} {slot : Nat}
    (hslot : locals[slot]? = some target) {value : Source.Expr} {code : Code.Expr}
    (h : Lowers fields locals value code) :
    StmtLowers fields locals (.assign span target value) (.setLocal slot code)
  | assignField {locals : List String} (span : Span) {target : String} {index : Nat}
    (hlocal : target ∉ locals) (hfield : fields[index]? = some target) {value : Source.Expr}
    {code : Code.Expr} (h : Lowers fields locals value code) :
    StmtLowers fields locals (.assign span target value) (.setField index code)
  | returnNothing {locals : List String} (span : Span) :
    StmtLowers fields locals (.return span none) (.return none)
  | return {locals : List String} (span : Span) {value : Source.Expr} {code : Code.Expr}
    (h : Lowers fields locals value code) :
    StmtLowers fields locals (.return span (some value)) (.return (some code))
  | ifThen {locals : List String} (span : Span) {condition : Source.Expr} {test : Code.Expr}
    {body : List Source.Stmt} {code : List Code.Stmt} (htest : Lowers fields locals condition test)
    (h : BodyLowers fields locals body code) :
    StmtLowers fields locals (.ifThen span condition body) (.cond test code [])
  | ifElse {locals : List String} (span : Span) {condition : Source.Expr} {test : Code.Expr}
    {body otherwise : List Source.Stmt} {code more : List Code.Stmt}
    (htest : Lowers fields locals condition test) (h : BodyLowers fields locals body code)
    (hotherwise : BodyLowers fields (locals ++ declaredIn body) otherwise more) :
    StmtLowers fields locals (.ifElse span condition body otherwise) (.cond test code more)
  | while {locals : List String} (span : Span) {condition : Source.Expr} {test : Code.Expr}
    {body : List Source.Stmt} {code : List Code.Stmt} (htest : Lowers fields locals condition test)
    (h : BodyLowers fields locals body code) :
    StmtLowers fields locals (.while span condition body) (.while test code)
  | expr {locals : List String} (span : Span) {value : Source.Expr} {code : Code.Expr}
    (h : Lowers fields locals value code) :
    StmtLowers fields locals (.expr span value) (.expr code)

inductive BodyLowers (fields : List String) :
    List String → List Source.Stmt → List Code.Stmt → Prop
  | nil (locals : List String) : BodyLowers fields locals [] []
  | cons {locals : List String} {s : Source.Stmt} {rest : List Source.Stmt} {code : Code.Stmt}
    {more : List Code.Stmt} (here : StmtLowers fields locals s code)
    (later : BodyLowers fields (locals ++ declaredBy s) rest more) :
    BodyLowers fields locals (s :: rest) (code :: more)

end

namespace Site

variable {site : Site} {locals : List String}

theorem name_lowers {span : Span} {name : String}
    (h : (site.expr locals (.name span name)).2 = []) :
    Lowers site.type.fields locals (.name span name) (site.expr locals (.name span name)).1 := by
  unfold expr at h ⊢
  cases hstorage : site.storage? locals name with
  | none =>
    rw [hstorage] at h
    cases h
  | some storage =>
    rcases storage with slot | index
    · exact .local span (storage?_slot hstorage)
    · obtain ⟨hlocal, hfield⟩ := storage?_field hstorage
      exact .field span hlocal hfield

theorem call_lowers {span : Span} {callee : Spanned QualifiedName} {arguments : List Source.Expr}
    {codes : List Code.Expr} (h : (site.call callee codes).2 = [])
    (hall : LowersAll site.type.fields locals arguments codes) :
    Lowers site.type.fields locals (.call span callee arguments) (site.call callee codes).1 := by
  rcases call_cases h with ⟨-, hcode⟩ | ⟨-, b, hbuiltin, -, hcode⟩ |
    ⟨-, -, -, unit, fullName, -, -, -, hcode⟩
  · rw [hcode]
    exact .sibling span callee hall
  · rw [hcode]
    exact .assertion span hbuiltin hall
  · rw [hcode]
    exact .static span callee unit fullName hall

mutual

theorem expr_lowers : ∀ e : Source.Expr, (site.expr locals e).2 = [] →
    Lowers site.type.fields locals e (site.expr locals e).1
  | .constant span value, _ => .constant span value
  | .name .., h => name_lowers h
  | .unary span op operand, h => .unary span op (expr_lowers operand h)
  | .binary span op left right, h => by
    obtain ⟨hleft, hright⟩ := List.append_eq_nil_iff.1 h
    exact .binary span op (expr_lowers left hleft) (expr_lowers right hright)
  | .call _ _ arguments, h => by
    obtain ⟨hargs, hcall⟩ := List.append_eq_nil_iff.1 h
    exact call_lowers hcall (exprs_lower arguments hargs)
  | .paren span inner, h => .paren span (expr_lowers inner h)

theorem exprs_lower : ∀ es : List Source.Expr, (site.exprs locals es).2 = [] →
    LowersAll site.type.fields locals es (site.exprs locals es).1
  | [], _ => .nil
  | e :: rest, h => by
    obtain ⟨hhere, hlater⟩ := List.append_eq_nil_iff.1 h
    exact .cons (expr_lowers e hhere) (exprs_lower rest hlater)

end

mutual

/-- A statement becomes one statement of its form. -/
theorem stmt_lowers : ∀ (locals : List String) (s : Source.Stmt),
    (site.stmt locals s).faults = [] → ∃ code, (site.stmt locals s).code = [code] ∧
      StmtLowers site.type.fields locals s code
  | _, .bind span name value, h => by
    obtain ⟨-, hvalue, heq⟩ := stmt_bind h
    rw [heq]
    exact ⟨_, rfl, .bind span name (expr_lowers value hvalue)⟩
  | _, .assign span target value, h => by
    obtain ⟨hvalue, ⟨slot, hstorage, heq⟩ | ⟨index, hstorage, heq⟩⟩ := stmt_assign h
    · rw [heq]
      exact ⟨_, rfl, .assignLocal span (storage?_slot hstorage) (expr_lowers value hvalue)⟩
    · obtain ⟨hlocal, hfield⟩ := storage?_field hstorage
      rw [heq]
      exact ⟨_, rfl, .assignField span hlocal hfield (expr_lowers value hvalue)⟩
  | _, .return span none, _ => ⟨_, rfl, .returnNothing span⟩
  | _, .return span (some value), h => ⟨_, rfl, .return span (expr_lowers value h)⟩
  | locals, .ifThen span condition body, h => by
    obtain ⟨htest, hbody⟩ := List.append_eq_nil_iff.1 h
    exact ⟨_, rfl, .ifThen span (expr_lowers condition htest) (block_lowers locals body hbody)⟩
  | locals, .ifElse span condition body otherwise, h => by
    obtain ⟨hfirst, hotherwise⟩ := List.append_eq_nil_iff.1 h
    obtain ⟨htest, hbody⟩ := List.append_eq_nil_iff.1 hfirst
    have hsecond := block_lowers _ otherwise hotherwise
    rw [block_locals locals body hbody] at hsecond
    refine ⟨_, rfl, .ifElse span (expr_lowers condition htest) (block_lowers locals body hbody) ?_⟩
    rw [block_locals locals body hbody]
    exact hsecond
  | locals, .while span condition body, h => by
    obtain ⟨htest, hbody⟩ := List.append_eq_nil_iff.1 h
    exact ⟨_, rfl, .while span (expr_lowers condition htest) (block_lowers locals body hbody)⟩
  | _, .expr span value, h => ⟨_, rfl, .expr span (expr_lowers value h)⟩

theorem block_lowers : ∀ (locals : List String) (ss : List Source.Stmt),
    (site.block locals ss).faults = [] →
      BodyLowers site.type.fields locals ss (site.block locals ss).code
  | locals, [], _ => .nil locals
  | locals, s :: rest, h => by
    obtain ⟨hhere, hlater⟩ := List.append_eq_nil_iff.1 h
    obtain ⟨code, hcode, hlowers⟩ := stmt_lowers locals s hhere
    have hrest := block_lowers _ rest hlater
    have happend : (site.block locals (s :: rest)).code =
        code :: (site.block (site.stmt locals s).locals rest).code := by
      change (site.stmt locals s).code ++ _ = _
      rw [hcode]
      rfl
    rw [happend]
    refine .cons hlowers ?_
    rw [← stmt_locals locals s hhere]
    exact hrest

end

end Site

/-- The type of a class, with the code of its initial values and its methods. -/
structure ClassLowers (c : Source.ClassDecl) (t : Image.TypeDecl) : Prop where
  fields : List.Forall₂ (fun f (field : Image.Field) =>
    field.name = f.name ∧ Lowers (c.fields.map (·.name)) [] f.value field.init) c.fields t.fields
  methods : List.Forall₂ (fun m (method : Image.Method) =>
    method.name = m.name.node ∧
      BodyLowers (c.fields.map (·.name)) (m.parameters.map (·.node)) m.body method.body)
    c.methods t.methods

/-- The classes of the files and the types of the image correspond in order. -/
theorem Accepted.classes_lower {unitName : String} {references : List String}
    {files : List ParsedFile} {interfaces : List Image} {image : Image}
    (h : Accepted unitName references files interfaces image) :
    List.Forall₂ ClassLowers (files.flatMap (·.program.classes)) image.types := by
  have hdecl : files.flatMap (·.program.classes) = (declaredTypes files).map (·.decl) := by
    simp [declaredTypes, List.map_flatMap, Function.comp_def]
  rw [hdecl, h.types_eq, List.forall₂_map_left_iff, List.forall₂_map_right_iff, List.forall₂_same]
  intro t ht
  obtain ⟨hfields, hmethods⟩ := lowerType_faults (h.bodies t ht)
  have hnames := h.fields_eq ht
  rw [lowerType_eq]
  refine ⟨?_, ?_⟩
  · rw [List.forall₂_map_right_iff, List.forall₂_same]
    intro f hf
    have hlowers := Site.expr_lowers f.value (hfields f hf)
    exact ⟨rfl, hnames ▸ hlowers⟩
  · rw [List.forall₂_map_right_iff, List.forall₂_same]
    intro m hm
    have hbody := (List.append_eq_nil_iff.1 (hmethods m hm)).2
    have hlowers := Site.block_lowers (m.parameters.map (·.node)) m.body hbody
    exact ⟨rfl, hnames ▸ hlowers⟩

end TestBench.Compile
