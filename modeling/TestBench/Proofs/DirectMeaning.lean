import Mathlib.Logic.Function.Basic
import TestBench.Compile.Lowering
import TestBench.Machine.Interpreter

/-!
What source programs mean without being compiled. Locals and fields are kept
under their names, and a name is looked up where it stands: it is the parameter
or the local variable declared before it in the text of the method, and a field
otherwise. Methods and types are found by name in the trees when they are
called; only calls of other units are left to a machine that has their images
loaded. Fuel is spent as by the machine, on calls and on turns of loops.
-/
namespace TestBench

namespace Source

mutual

/-- The local variables that a statement declares, in the order of the text. -/
def declaredBy : Stmt → List String
  | .bind _ name _ => [name]
  | .ifThen _ _ body | .while _ _ body => declaredIn body
  | .ifElse _ _ body otherwise => declaredIn body ++ declaredIn otherwise
  | .assign .. | .return .. | .expr .. => []

def declaredIn : List Stmt → List String
  | [] => []
  | s :: rest => declaredBy s ++ declaredIn rest

end

end Source

namespace Direct

open Source (declaredBy declaredIn)
open Machine (Value Fault Run answer outOfFuel)

/-- Values under names. -/
abbrev Bindings := String → Value

def blank : Bindings := fun _ => .nothing

/-- The fields of the instance whose method runs and the locals of the call. -/
structure Activation where
  fields : Bindings
  locals : Bindings

namespace Activation

/-- The value of a name where the locals in `declared` are known. -/
def get (a : Activation) (declared : List String) (name : String) : Value :=
  if name ∈ declared then a.locals name else a.fields name

def put (a : Activation) (declared : List String) (name : String) (v : Value) : Activation :=
  if name ∈ declared then { a with locals := Function.update a.locals name v }
  else { a with fields := Function.update a.fields name v }

end Activation

/-- A class and the file that it stands in. -/
structure Class where
  program : Source.Program
  decl : Source.ClassDecl

namespace Class

def fullName (c : Class) : String := c.program.fullName c.decl.name.node

def method? (c : Class) (name : String) : Option Source.Method :=
  c.decl.methods.find? (·.name.node == name)

end Class

/-- How calls are carried out: those of the same instance, and those of a type
that is named as in the file. -/
structure Calls where
  sibling : String → List Value → Run Bindings Value
  other : QualifiedName → String → List Value → Option (Except Fault Value)

/-- The methods of the instance, inside one of its methods. -/
def onFields {α : Type} (r : Run Bindings α) : Run Activation α := fun a =>
  match r a.fields with
  | some (result, fields) => some (result, { a with fields })
  | none => none

/-- A lone name is a method of the class, else a builtin. One with dots is a builtin, else a method
of the type before the last dot. -/
def callee (c : Class) (calls : Calls) (name : QualifiedName) (args : List Value) :
    Run Activation Value :=
  if name.isSimple ∧ (c.method? name.last).isSome then onFields (calls.sibling name.last args)
  else match Builtin.ofSpelling? name.written with
    | some b => answer (Machine.runBuiltin b args)
    | none =>
      match name.qualifier? with
      | none => answer (.error (.methodNotFound c.fullName name.last))
      | some qualifier =>
        match calls.other qualifier name.last args with
        | some result => answer result
        | none => outOfFuel

section Evaluation

variable (c : Class) (calls : Calls) (declared : List String)

mutual

def eval : Source.Expr → Run Activation Value
  | .constant _ value => return .ofConstant value
  | .name _ name => return (← get).get declared name
  | .unary _ op operand => do answer (Machine.applyUnary op (← eval operand))
  | .binary _ .and left right => do
    if ← answer (Machine.truth (← eval left)) then
      return .boolean (← answer (Machine.truth (← eval right)))
    else return .boolean false
  | .binary _ .or left right => do
    if ← answer (Machine.truth (← eval left)) then return .boolean true
    else return .boolean (← answer (Machine.truth (← eval right)))
  | .binary _ op left right => do
    let l ← eval left
    let r ← eval right
    answer (Machine.applyBinary op l r)
  | .call _ name arguments => do
    let args ← evalAll arguments
    callee c calls name.node args
  | .paren _ inner => eval inner

def evalAll : List Source.Expr → Run Activation (List Value)
  | [] => return []
  | e :: rest => do
    let v ← eval e
    return v :: (← evalAll rest)

end

def condition (e : Source.Expr) : Run Activation Bool := do
  answer (Machine.truth (← eval c calls declared e))

end Evaluation

/-- Runs the body as long as the test holds or until it returns. -/
def loop (test : Run Activation Bool) (body : Run Activation (Option Value)) :
    Nat → Run Activation (Option Value)
  | 0 => outOfFuel
  | fuel + 1 => do
    if ← test then
      match ← body with
      | some v => return some v
      | none => loop test body fuel
    else return none

section Execution

variable (c : Class) (calls : Calls) (fuel : Nat)

mutual

/-- Runs a statement where the locals in `declared` are known; the result is the value that it
returns from the method, if it does. -/
def exec (declared : List String) : Source.Stmt → Run Activation (Option Value)
  | .bind _ name value => do
    let v ← eval c calls declared value
    modify fun a => { a with locals := Function.update a.locals name v }
    return none
  | .assign _ target value => do
    let v ← eval c calls declared value
    modify fun a => a.put declared target v
    return none
  | .return _ none => return some .nothing
  | .return _ (some value) => return some (← eval c calls declared value)
  | .ifThen _ test body => do
    if ← condition c calls declared test then execAll declared body
    else return none
  | .ifElse _ test body otherwise => do
    if ← condition c calls declared test then execAll declared body
    else execAll (declared ++ declaredIn body) otherwise
  | .while _ test body => loop (condition c calls declared test) (execAll declared body) fuel
  | .expr _ value => do
    let _ ← eval c calls declared value
    return none

def execAll (declared : List String) : List Source.Stmt → Run Activation (Option Value)
  | [] => return none
  | s :: rest => do
    match ← exec declared s with
    | some v => return some v
    | none => execAll (declared ++ declaredBy s) rest

end

end Execution

/-- Sets the fields to their initial values in the order of their declaration. -/
def setFields (c : Class) (calls : Calls) : List Source.Field → Run Activation Unit
  | [] => return ()
  | field :: rest => do
    let v ← eval c calls [] field.value
    modify fun a => { a with fields := Function.update a.fields field.name v }
    setFields c calls rest

/-- The parameters with their arguments. -/
def bound (parameters : List String) (args : List Value) : Bindings := fun name =>
  ((parameters.zip args).lookup name).getD .nothing

/-- A unit with the names it resolves types by, its classes, and the machine that runs the code
of other units. -/
structure World where
  scope : Compile.Scope
  classes : List Class
  machine : Machine

namespace World

def ofFiles (unitName : String) (files : List ParsedFile) (interfaces : List Image)
    (machine : Machine) : World where
  scope := ⟨unitName, (Compile.ownTypes [] files).1, interfaces⟩
  classes := files.flatMap fun f => f.program.classes.map (⟨f.program, ·⟩)
  machine := machine

def class? (w : World) (fullName : String) : Option Class :=
  w.classes.find? (·.fullName == fullName)

/-- A call on a fresh instance of a class, from how its fields are set and its methods run. -/
def freshCall (construct : Option (Except Fault Bindings))
    (call : String → List Value → Run Bindings Value) (target : Code.Target) (args : List Value) :
    Option (Except Fault Value) := do
  let name := target.typeName ++ "." ++ target.method
  match ← construct with
  | .error fault => return .error (.invocation name fault)
  | .ok fields =>
    let (result, _) ← call target.method args fields
    return Machine.wrapped name result

/-- A call of a type by the name that a class knows it by: of this unit among its classes, of any
other by the machine. -/
def otherCall (w : World) (construct : Class → Option (Except Fault Bindings))
    (call : Class → String → List Value → Run Bindings Value) (fuel depth : Nat) (c : Class)
    (qualifier : QualifiedName) (method : String) (args : List Value) :
    Option (Except Fault Value) :=
  match w.scope.resolve? c.program qualifier.written with
  | none => some (.error (.typeNotFound qualifier.written))
  | some (unit, fullName) =>
    if unit = w.scope.unitName then
      match w.class? fullName with
      | none => some (.error (.typeNotFound fullName))
      | some d => freshCall (construct d) (call d) ⟨unit, fullName, method⟩ args
    else
      Machine.staticCall (w.machine.construct fuel depth) (w.machine.callMethod fuel depth)
        ⟨unit, fullName, method⟩ args

mutual

/-- Runs a method of an instance at a depth of calls. -/
def call (w : World) : Nat → Nat → Class → String → List Value → Run Bindings Value
  | 0, _, _, _, _ => outOfFuel
  | fuel + 1, depth, c, name, args => fun fields =>
    if w.machine.maxCallDepth ≤ depth then
      some (.error (.callDepthExceeded w.machine.maxCallDepth), fields)
    else match c.method? name with
      | none => some (.error (.methodNotFound c.fullName name), fields)
      | some m =>
        let parameters := m.parameters.map (·.node)
        if parameters.length = args.length then
          let calls : Calls := ⟨call w fuel (depth + 1) c,
            w.otherCall (construct w fuel (depth + 1)) (call w fuel (depth + 1)) fuel (depth + 1) c⟩
          match execAll c calls fuel parameters m.body ⟨fields, bound parameters args⟩ with
          | none => none
          | some (.error fault, a) => some (.error fault, a.fields)
          | some (.ok v, a) => some (.ok (v.getD .nothing), a.fields)
        else some (.error (.arity name parameters.length args.length), fields)

/-- The fields of a new instance. -/
def construct (w : World) : Nat → Nat → Class → Option (Except Fault Bindings)
  | 0, _, _ => none
  | fuel + 1, depth, c =>
    let calls : Calls := ⟨call w fuel (depth + 1) c,
      w.otherCall (construct w fuel (depth + 1)) (call w fuel (depth + 1)) fuel (depth + 1) c⟩
    match setFields c calls c.decl.fields ⟨blank, blank⟩ with
    | none => none
    | some (.error fault, _) => some (.error fault)
    | some (.ok (), a) => some (.ok a.fields)

end

end World

end Direct

end TestBench
