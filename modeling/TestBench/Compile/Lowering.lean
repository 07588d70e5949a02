import TestBench.Compile.Scope

/-!
From trees to code. Parameters take the first slots of a method and each local
variable the next one, from its declaration on; blocks open no scope of their
own. Where a name means nothing a placeholder stands in for it, and the fault
keeps the code from being used.
-/
namespace TestBench

namespace Compile

/-- Where an expression stands: the scope of its unit, its file and its type. -/
structure Site where
  scope : Scope
  program : Source.Program
  type : OwnType

def placeholder : Code.Expr := .constant (.integer Word.zero)

/-- The code, unless the number of arguments is wrong. -/
def checked (callee : Spanned String) (expected found : Nat) (code : Code.Expr) :
    Code.Expr × Faults :=
  if expected = found then (code, [])
  else (placeholder, [⟨.arity callee.node expected found, callee.span⟩])

/-- Where the value of a name is kept. -/
inductive Storage where
  | local (slot : Nat)
  | field (index : Nat)
  deriving DecidableEq, Repr

namespace Site

/-- A name is a local if there is one, and otherwise a field. -/
def storage? (site : Site) (locals : List String) (name : String) : Option Storage :=
  match locals.findIdx? (· == name) with
  | some slot => some (.local slot)
  | none => (site.type.fieldIndex? name).map .field

def builtinCall (spelled : Spanned String) (b : Builtin) (args : List Code.Expr) :
    Code.Expr × Faults :=
  checked spelled b.arity args.length (.assertion b args)

def staticCall (site : Site) (callee : Spanned QualifiedName) (qualifier : QualifiedName)
    (args : List Code.Expr) : Code.Expr × Faults :=
  match site.scope.resolve? site.program qualifier.written with
  | none => (placeholder, [⟨.unknownType qualifier.written, callee.span⟩])
  | some (unit, fullName) =>
    match site.scope.arity? unit fullName callee.node.last with
    | none => (placeholder, [⟨.unknownMethod fullName callee.node.last, callee.span⟩])
    | some arity =>
      checked ⟨callee.node.written, callee.span⟩ arity args.length
        (.callStatic ⟨unit, fullName, callee.node.last⟩ args)

/-- A lone name is a method of the same type, else a builtin. Any other is a builtin, else a method
of the type before the last dot. -/
def call (site : Site) (callee : Spanned QualifiedName) (args : List Code.Expr) :
    Code.Expr × Faults :=
  let spelled : Spanned String := ⟨callee.node.written, callee.span⟩
  let sibling := if callee.node.isSimple then site.type.arity? callee.node.last else none
  match sibling with
  | some arity => checked spelled arity args.length (.callSelf callee.node.last args)
  | none =>
    match Builtin.ofSpelling? spelled.node with
    | some b => builtinCall spelled b args
    | none =>
      match callee.node.qualifier? with
      | some qualifier => site.staticCall callee qualifier args
      | none =>
        (placeholder, [⟨.unknownMethod site.type.fullName callee.node.last, callee.span⟩])

mutual

def expr (site : Site) (locals : List String) : Source.Expr → Code.Expr × Faults
  | .constant _ value => (.constant value, [])
  | .name span name =>
    match site.storage? locals name with
    | some (.local slot) => (.local slot, [])
    | some (.field index) => (.field index, [])
    | none => (placeholder, [⟨.unknownSymbol name, span⟩])
  | .unary _ op operand =>
    let (code, faults) := expr site locals operand
    (.unary op code, faults)
  | .binary _ op left right =>
    let (l, leftFaults) := expr site locals left
    let (r, rightFaults) := expr site locals right
    (.binary l op r, leftFaults ++ rightFaults)
  | .call _ callee arguments =>
    let (args, argFaults) := exprs site locals arguments
    let (code, faults) := site.call callee args
    (code, argFaults ++ faults)
  | .paren _ inner => expr site locals inner

def exprs (site : Site) (locals : List String) : List Source.Expr → List Code.Expr × Faults
  | [] => ([], [])
  | e :: rest =>
    let (code, here) := expr site locals e
    let (codes, later) := exprs site locals rest
    (code :: codes, here ++ later)

end

end Site

/-- The code of statements, the locals after them and the faults in them. -/
structure Lowered where
  code : List Code.Stmt
  locals : List String
  faults : Faults

namespace Lowered

def fail (locals : List String) (faults : Faults) (fault : ScopeFault) (span : Span) : Lowered :=
  ⟨[], locals, faults ++ [⟨fault, span⟩]⟩

def one (locals : List String) (faults : Faults) (s : Code.Stmt) : Lowered :=
  ⟨[s], locals, faults⟩

end Lowered

namespace Site

mutual

def stmt (site : Site) (locals : List String) : Source.Stmt → Lowered
  | .bind span name value =>
    let (code, faults) := site.expr locals value
    if locals.contains name then .fail locals faults (.duplicate .localVariable name) span
    else .one (locals ++ [name]) faults (.setLocal locals.length code)
  | .assign span target value =>
    let (code, faults) := site.expr locals value
    match site.storage? locals target with
    | some (.local slot) => .one locals faults (.setLocal slot code)
    | some (.field index) => .one locals faults (.setField index code)
    | none => .fail locals faults (.unknownSymbol target) span
  | .return _ none => .one locals [] (.return none)
  | .return _ (some value) =>
    let (code, faults) := site.expr locals value
    .one locals faults (.return (some code))
  | .ifThen _ condition body =>
    let (test, faults) := site.expr locals condition
    let inner := block site locals body
    .one inner.locals (faults ++ inner.faults) (.cond test inner.code [])
  | .ifElse _ condition body otherwise =>
    let (test, faults) := site.expr locals condition
    let first := block site locals body
    let second := block site first.locals otherwise
    .one second.locals (faults ++ first.faults ++ second.faults)
      (.cond test first.code second.code)
  | .while _ condition body =>
    let (test, faults) := site.expr locals condition
    let inner := block site locals body
    .one inner.locals (faults ++ inner.faults) (.while test inner.code)
  | .expr _ value =>
    let (code, faults) := site.expr locals value
    .one locals faults (.expr code)

def block (site : Site) (locals : List String) : List Source.Stmt → Lowered
  | [] => ⟨[], locals, []⟩
  | s :: rest =>
    let first := stmt site locals s
    let later := block site first.locals rest
    ⟨first.code ++ later.code, later.locals, first.faults ++ later.faults⟩

end

def field (site : Site) (f : Source.Field) : Image.Field × Faults :=
  let (init, faults) := site.expr [] f.value
  (⟨f.name, init⟩, faults)

/-- The faults of parameters that have the name of an earlier one. -/
def parameterFaults (m : Source.Method) : Faults :=
  (distinct .parameter id [] m.parameters).2

def method (site : Site) (m : Source.Method) : Image.Method × Faults :=
  let lowered := site.block (m.parameters.map (·.node)) m.body
  (⟨m.name.node, m.parameters.length, lowered.locals.length, Source.attributeNames m.attributes,
      lowered.code, (site.type.origin.file.position m.name.span).line⟩,
    parameterFaults m ++ lowered.faults)

end Site

def lowerType (scope : Scope) (t : OwnType) : Image.TypeDecl × Faults :=
  let site : Site := ⟨scope, t.origin.program, t⟩
  let fields := t.decl.fields.map site.field
  let methods := t.decl.methods.map site.method
  (⟨t.fullName, Source.attributeNames t.decl.attributes, fields.map (·.1), methods.map (·.1)⟩,
    fields.flatMap (·.2) ++ methods.flatMap (·.2))

/-- The names without the later repetitions of any. -/
def withoutRepeats : List String → List String
  | [] => []
  | name :: rest => name :: (withoutRepeats rest).filter (· != name)

/-- The image of files that parsed, compiled against the interfaces. -/
def lowerFiles (unitName : String) (references : List String) (files : List ParsedFile)
    (interfaces : List Image) : Except (List FileDiagnostic) Image :=
  let (types, declarationFaults) := ownTypes [] files
  let scope : Scope := ⟨unitName, types, interfaces⟩
  let lowered := types.map fun t => (t, lowerType scope t)
  let bodyFaults := lowered.flatMap fun (t, _, faults) =>
    faults.map (⟨t.origin.file, ScopeFault.diagnostic ·⟩)
  match declarationFaults ++ bodyFaults with
  | [] => .ok ⟨unitName, withoutRepeats references, lowered.map (·.2.1)⟩
  | faults => .error faults

end Compile

/-- The image of a unit, compiled against images of what it refers to, or every fault in it. -/
def compile (u : SourceUnit) (interfaces : List Image) : Except (List FileDiagnostic) Image :=
  match u.parse with
  | .error diagnostics => .error diagnostics
  | .ok files => Compile.lowerFiles u.name (u.references.map Reference.name) files interfaces

end TestBench
