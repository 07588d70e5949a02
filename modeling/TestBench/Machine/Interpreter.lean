import TestBench.Image.Basic
import TestBench.Machine.Arithmetic

/-!
Running compiled code. A frame holds the instance whose method runs and the
locals of the call. Calls are carried out with less fuel than the code that
makes them, and so is each turn of a loop after the first; a run that is out of
fuel has no outcome at all, which is neither a value nor a fault.
-/
namespace TestBench

/-- The images that were loaded, under their names, and where to start. -/
structure Machine where
  entry : String
  images : List (String × Image)
  maxCallDepth : Nat

namespace Machine

/-- No limit on the depth of calls is above this one. -/
def callDepthCeiling : Nat := 256

def defaultCallDepth : Nat := 128

structure Instance where
  unit : String
  typeName : String
  fields : List Value
  deriving DecidableEq, Repr

structure Frame where
  self : Instance
  locals : List Value

/-- A computation on a state. It may fault, which keeps the state, or run out of fuel. -/
abbrev Run (σ : Type) (α : Type) := ExceptT Fault (StateT σ Option) α

def outOfFuel {σ α : Type} : Run σ α := fun _ => none

/-- A value or a fault that is known already. -/
def answer {σ α : Type} (r : Except Fault α) : Run σ α := fun s => some (r, s)

/-- The methods of the instance, for the frame of one of its methods. -/
def onSelf {α : Type} (r : Run Instance α) : Run Frame α := fun f =>
  match r f.self with
  | some (result, self) => some (result, { f with self })
  | none => none

/-- How the calls in a piece of code are carried out. -/
structure Calls where
  self : String → List Value → Run Instance Value
  static : Code.Target → List Value → Option (Except Fault Value)

def readSlot (slots : List Value) (index : Nat) : Except Fault Value :=
  match slots[index]? with
  | some v => .ok v
  | none => .error (.typeMismatch (.slot index))

def writeSlot (slots : List Value) (index : Nat) (v : Value) : Except Fault (List Value) :=
  if index < slots.length then .ok (slots.set index v)
  else .error (.typeMismatch (.slot index))

def truth (v : Value) : Except Fault Bool :=
  match v with
  | .boolean b => .ok b
  | v => .error (.typeMismatch (.condition v))

mutual

def eval (calls : Calls) : Code.Expr → Run Frame Value
  | .constant value => return .ofConstant value
  | .local slot => do answer (readSlot (← get).locals slot)
  | .field index => do answer (readSlot (← get).self.fields index)
  | .unary op operand => do answer (applyUnary op (← eval calls operand))
  | .binary left .and right => do
    if ← answer (truth (← eval calls left)) then
      return .boolean (← answer (truth (← eval calls right)))
    else return .boolean false
  | .binary left .or right => do
    if ← answer (truth (← eval calls left)) then return .boolean true
    else return .boolean (← answer (truth (← eval calls right)))
  | .binary left op right => do
    let l ← eval calls left
    let r ← eval calls right
    answer (applyBinary op l r)
  | .callSelf method arguments => do
    let args ← evalAll calls arguments
    onSelf (calls.self method args)
  | .callStatic target arguments => do
    let args ← evalAll calls arguments
    match calls.static target args with
    | some result => answer result
    | none => outOfFuel
  | .assertion builtin arguments => do answer (runBuiltin builtin (← evalAll calls arguments))

def evalAll (calls : Calls) : List Code.Expr → Run Frame (List Value)
  | [] => return []
  | e :: rest => do
    let v ← eval calls e
    return v :: (← evalAll calls rest)

end

def condition (calls : Calls) (e : Code.Expr) : Run Frame Bool := do
  answer (truth (← eval calls e))

/-- Runs the body as long as the test holds or until it returns. -/
def repeatWhile (test : Run Frame Bool) (body : Run Frame (Option Value)) :
    Nat → Run Frame (Option Value)
  | 0 => outOfFuel
  | fuel + 1 => fun f =>
    match test f with
    | none => none
    | some (.error fault, f) => some (.error fault, f)
    | some (.ok false, f) => some (.ok none, f)
    | some (.ok true, f) =>
      match body f with
      | some (.ok none, f) => repeatWhile test body fuel f
      | other => other

mutual

/-- Runs a statement; the result is the value that it returns from the method, if it does. -/
def exec (calls : Calls) (fuel : Nat) : Code.Stmt → Run Frame (Option Value)
  | .setLocal slot value => do
    let v ← eval calls value
    let locals ← answer (writeSlot (← get).locals slot v)
    modify fun f => { f with locals }
    return none
  | .setField index value => do
    let v ← eval calls value
    let fields ← answer (writeSlot (← get).self.fields index v)
    modify fun f => { f with self := { f.self with fields } }
    return none
  | .return none => return some .nothing
  | .return (some value) => return some (← eval calls value)
  | .cond test body otherwise => do
    if ← condition calls test then execAll calls fuel body
    else execAll calls fuel otherwise
  | .while test body => repeatWhile (condition calls test) (execAll calls fuel body) fuel
  | .expr value => do
    let _ ← eval calls value
    return none

def execAll (calls : Calls) (fuel : Nat) : List Code.Stmt → Run Frame (Option Value)
  | [] => return none
  | s :: rest => do
    match ← exec calls fuel s with
    | some v => return some v
    | none => execAll calls fuel rest

end

def image? (m : Machine) (name : String) : Option Image :=
  (m.images.find? (·.1 == name)).map (·.2)

def typeDecl (m : Machine) (unit typeName : String) : Except Fault Image.TypeDecl :=
  match m.image? unit with
  | none => .error (.unitNotLoaded unit)
  | some image =>
    match image.type? typeName with
    | none => .error (.typeNotFound typeName)
    | some t => .ok t

/-- The method that a call of this name with so many arguments runs. -/
def methodFor (m : Machine) (self : Instance) (name : String) (count : Nat) :
    Except Fault Image.Method := do
  let t ← m.typeDecl self.unit self.typeName
  match t.method? name with
  | none => .error (.methodNotFound self.typeName name)
  | some method =>
    if method.arity = count then .ok method else .error (.arity name method.arity count)

/-- The locals at the start of a method: its arguments, and nothing in the other slots. -/
def initialLocals (method : Image.Method) (args : List Value) : List Value :=
  args ++ List.replicate (max method.locals method.arity - args.length) .nothing

/-- Evaluates the initial values of fields in their order, each with those before it set. -/
def setFields (calls : Calls) : Nat → List Image.Field → Run Frame Unit
  | _, [] => return ()
  | index, field :: rest => do
    let v ← eval calls field.init
    modify fun f => { f with self := { f.self with fields := f.self.fields.set index v } }
    setFields calls (index + 1) rest

/-- A fault in the target of a call is wrapped in its name. -/
def wrapped {α : Type} (target : String) : Except Fault α → Except Fault α
  | .ok a => .ok a
  | .error fault => .error (.invocation target fault)

/-- A call on a fresh instance, from how instances are made and how their methods run. -/
def staticCall (construct : String → String → Option (Except Fault Instance))
    (call : String → List Value → Run Instance Value) (target : Code.Target)
    (args : List Value) : Option (Except Fault Value) := do
  let name := target.typeName ++ "." ++ target.method
  match ← construct target.unit target.typeName with
  | .error fault => return .error (.invocation name fault)
  | .ok fresh =>
    let (result, _) ← call target.method args fresh
    return wrapped name result

mutual

/-- Runs a method of an instance at a depth of calls. -/
def callMethod (m : Machine) : Nat → Nat → String → List Value → Run Instance Value
  | 0, _, _, _ => outOfFuel
  | fuel + 1, depth, name, args => fun self =>
    if m.maxCallDepth ≤ depth then some (.error (.callDepthExceeded m.maxCallDepth), self)
    else match m.methodFor self name args.length with
      | .error fault => some (.error fault, self)
      | .ok method =>
        let calls : Calls := ⟨callMethod m fuel (depth + 1),
          staticCall (construct m fuel (depth + 1)) (callMethod m fuel (depth + 1))⟩
        match execAll calls fuel method.body ⟨self, initialLocals method args⟩ with
        | none => none
        | some (.error fault, f) => some (.error fault, f.self)
        | some (.ok v, f) => some (.ok (v.getD .nothing), f.self)

/-- Makes an instance of a type and sets its fields. -/
def construct (m : Machine) : Nat → Nat → String → String → Option (Except Fault Instance)
  | 0, _, _, _ => none
  | fuel + 1, depth, unit, typeName =>
    match m.typeDecl unit typeName with
    | .error fault => some (.error fault)
    | .ok t =>
      let calls : Calls := ⟨callMethod m fuel (depth + 1),
        staticCall (construct m fuel (depth + 1)) (callMethod m fuel (depth + 1))⟩
      let blank : Instance := ⟨unit, typeName, List.replicate t.fields.length .nothing⟩
      match setFields calls 0 t.fields ⟨blank, []⟩ with
      | none => none
      | some (.error fault, _) => some (.error fault)
      | some (.ok (), f) => some (.ok f.self)

end

/-- A new instance of a type. -/
def instantiate (m : Machine) (fuel : Nat) (unit typeName : String) :
    Option (Except Fault Instance) := construct m fuel 0 unit typeName

/-- Runs a method without parameters and gives the instance as it is afterwards. -/
def invoke (m : Machine) (fuel : Nat) (self : Instance) (method : String) :
    Option (Except Fault Value × Instance) := do
  let (result, after) ← callMethod m fuel 0 method [] self
  return (wrapped (self.typeName ++ "." ++ method) result, after)

end Machine

end TestBench
