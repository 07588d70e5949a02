import TestBench.Image.Basic
import TestBench.Json.Value

/-!
Images as JSON values. A record is an object with its fields in a fixed order;
a choice between forms is an object whose only key names the form, or just the
name if the form has no content. Reading also takes a record as the array of
its fields, takes the fields in any order, and ignores fields that it does not
know.
-/
namespace TestBench.Image.Body

def ofNat (n : Nat) : JsonValue := .integer n

def ofStrings (names : List String) : JsonValue := .array (names.map .text)

def tagged (tag : String) (content : JsonValue) : JsonValue := .object [(tag, content)]

def ofConstant : Constant → JsonValue
  | .integer n => tagged "Int" (.integer n.val)
  | .boolean b => tagged "Bool" (.boolean b)
  | .text s => tagged "Str" (.text s)

def unaryName : UnaryOp → String
  | .neg => "Neg"
  | .not => "Not"

def binaryName : BinaryOp → String
  | .add => "Add"
  | .sub => "Sub"
  | .mul => "Mul"
  | .div => "Div"
  | .mod => "Mod"
  | .eq => "Eq"
  | .notEq => "NotEq"
  | .lt => "Lt"
  | .ltEq => "LtEq"
  | .gt => "Gt"
  | .gtEq => "GtEq"
  | .and => "And"
  | .or => "Or"

def builtinName : Builtin → String
  | .assert => "Assert"
  | .assertEq => "AssertEq"
  | .assertNe => "AssertNe"
  | .fail => "Fail"

mutual

def ofExpr : Code.Expr → JsonValue
  | .constant value => tagged "Const" (ofConstant value)
  | .local slot => tagged "Local" (ofNat slot)
  | .field index => tagged "Field" (ofNat index)
  | .unary op operand => tagged "Unary" (.array [.text (unaryName op), ofExpr operand])
  | .binary left op right =>
    tagged "Binary" (.array [ofExpr left, .text (binaryName op), ofExpr right])
  | .callSelf method arguments =>
    tagged "CallSelf" (.object [("method", .text method), ("args", .array (ofExprs arguments))])
  | .callStatic target arguments =>
    tagged "CallStatic" (.object [("unit", .text target.unit), ("type_name", .text target.typeName),
      ("method", .text target.method), ("args", .array (ofExprs arguments))])
  | .assertion builtin arguments =>
    tagged "Intrinsic" (.object [("intrinsic", .text (builtinName builtin)),
      ("args", .array (ofExprs arguments))])

def ofExprs : List Code.Expr → List JsonValue
  | [] => []
  | e :: rest => ofExpr e :: ofExprs rest

end

def ofOption : Option Code.Expr → JsonValue
  | none => .null
  | some e => ofExpr e

mutual

def ofStmt : Code.Stmt → JsonValue
  | .setLocal slot value => tagged "SetLocal" (.array [ofNat slot, ofExpr value])
  | .setField index value => tagged "SetField" (.array [ofNat index, ofExpr value])
  | .return value => tagged "Return" (ofOption value)
  | .cond condition body otherwise =>
    tagged "If" (.object [("condition", ofExpr condition), ("then_body", .array (ofStmts body)),
      ("else_body", .array (ofStmts otherwise))])
  | .while condition body =>
    tagged "While" (.object [("condition", ofExpr condition), ("body", .array (ofStmts body))])
  | .expr value => tagged "Expr" (ofExpr value)

def ofStmts : List Code.Stmt → List JsonValue
  | [] => []
  | s :: rest => ofStmt s :: ofStmts rest

end

def ofField (f : Field) : JsonValue :=
  .object [("name", .text f.name), ("init", ofExpr f.init)]

def ofMethod (m : Method) : JsonValue :=
  .object [("name", .text m.name), ("arity", ofNat m.arity), ("locals", ofNat m.locals),
    ("attributes", ofStrings m.attributes), ("body", .array (ofStmts m.body)),
    ("line", ofNat m.line)]

def ofType (t : TypeDecl) : JsonValue :=
  .object [("full_name", .text t.fullName), ("attributes", ofStrings t.attributes),
    ("fields", .array (t.fields.map ofField)), ("methods", .array (t.methods.map ofMethod))]

def ofImage (image : Image) : JsonValue :=
  .object [("name", .text image.name), ("references", ofStrings image.references),
    ("types", .array (image.types.map ofType))]

def text? : JsonValue → Option String
  | .text s => some s
  | _ => none

def integer? : JsonValue → Option Int
  | .integer n => some n
  | _ => none

def boolean? : JsonValue → Option Bool
  | .boolean b => some b
  | _ => none

def array? : JsonValue → Option (List JsonValue)
  | .array items => some items
  | _ => none

/-- A size within its limit. -/
def nat? (v : JsonValue) : Option Nat := do
  let n ← integer? v
  if 0 ≤ n ∧ n < sizeLimit then some n.toNat else none

def texts? (v : JsonValue) : Option (List String) := do (← array? v).mapM text?

/-- The values of a record's fields in their order. Each must be there exactly once. -/
def record? (keys : List String) : JsonValue → Option (List JsonValue)
  | .array items => if items.length = keys.length then some items else none
  | .object members => keys.mapM fun key =>
    match members.filter (·.1 == key) with
    | [member] => some member.2
    | _ => none
  | _ => none

/-- The name of the form and its content. -/
def form? : JsonValue → Option (String × JsonValue)
  | .text tag => some (tag, .null)
  | .object [(tag, content)] => some (tag, content)
  | _ => none

/-- The name of a form with content. -/
def tagged? : JsonValue → Option (String × JsonValue)
  | .object [(tag, content)] => some (tag, content)
  | _ => none

/-- The item with this name, which stands without content. -/
def named? {α : Type} (all : List α) (name : α → String) (v : JsonValue) : Option α := do
  match ← form? v with
  | (tag, .null) => all.find? (name · == tag)
  | _ => none

def constant? (v : JsonValue) : Option Constant := do
  match ← tagged? v with
  | ("Int", n) => .integer <$> (Word.ofInt? (← integer? n))
  | ("Bool", b) => .boolean <$> boolean? b
  | ("Str", s) => .text <$> text? s
  | _ => none

/-- An expression; the limit bounds the values inside and beside each other. -/
def expr? : Nat → JsonValue → Option Code.Expr
  | 0, _ => none
  | limit + 1, v => do
    let exprs? (v : JsonValue) : Option (List Code.Expr) := do (← array? v).mapM (expr? limit)
    match ← tagged? v with
    | ("Const", c) => .constant <$> constant? c
    | ("Local", n) => .local <$> nat? n
    | ("Field", n) => .field <$> nat? n
    | ("Unary", .array [op, e]) =>
      return .unary (← named? UnaryOp.all unaryName op) (← expr? limit e)
    | ("Binary", .array [l, op, r]) =>
      return .binary (← expr? limit l) (← named? BinaryOp.all binaryName op) (← expr? limit r)
    | ("CallSelf", call) =>
      match ← record? ["method", "args"] call with
      | [method, args] => return .callSelf (← text? method) (← exprs? args)
      | _ => none
    | ("CallStatic", call) =>
      match ← record? ["unit", "type_name", "method", "args"] call with
      | [unit, typeName, method, args] =>
        return .callStatic ⟨← text? unit, ← text? typeName, ← text? method⟩ (← exprs? args)
      | _ => none
    | ("Intrinsic", call) =>
      match ← record? ["intrinsic", "args"] call with
      | [builtin, args] =>
        return .assertion (← named? Builtin.all builtinName builtin) (← exprs? args)
      | _ => none
    | _ => none

/-- Expressions inside a value, each of which is smaller than it. -/
def exprOf? (v : JsonValue) : Option Code.Expr := expr? v.size v

def option? : JsonValue → Option (Option Code.Expr)
  | .null => some none
  | v => some <$> exprOf? v

def stmt? : Nat → JsonValue → Option Code.Stmt
  | 0, _ => none
  | limit + 1, v => do
    let stmts? (v : JsonValue) : Option (List Code.Stmt) := do (← array? v).mapM (stmt? limit)
    match ← tagged? v with
    | ("SetLocal", .array [slot, value]) => return .setLocal (← nat? slot) (← exprOf? value)
    | ("SetField", .array [index, value]) => return .setField (← nat? index) (← exprOf? value)
    | ("Return", value) => .return <$> option? value
    | ("If", parts) =>
      match ← record? ["condition", "then_body", "else_body"] parts with
      | [condition, body, otherwise] =>
        return .cond (← exprOf? condition) (← stmts? body) (← stmts? otherwise)
      | _ => none
    | ("While", parts) =>
      match ← record? ["condition", "body"] parts with
      | [condition, body] => return .while (← exprOf? condition) (← stmts? body)
      | _ => none
    | ("Expr", value) => .expr <$> exprOf? value
    | _ => none

def stmtsOf? (v : JsonValue) : Option (List Code.Stmt) := do (← array? v).mapM (stmt? v.size)

def field? (v : JsonValue) : Option Field := do
  match ← record? ["name", "init"] v with
  | [name, init] => return ⟨← text? name, ← exprOf? init⟩
  | _ => none

def method? (v : JsonValue) : Option Method := do
  match ← record? ["name", "arity", "locals", "attributes", "body", "line"] v with
  | [name, arity, locals, attributes, body, line] =>
    return ⟨← text? name, ← nat? arity, ← nat? locals, ← texts? attributes, ← stmtsOf? body,
      ← nat? line⟩
  | _ => none

def type? (v : JsonValue) : Option TypeDecl := do
  match ← record? ["full_name", "attributes", "fields", "methods"] v with
  | [fullName, attributes, fields, methods] =>
    return ⟨← text? fullName, ← texts? attributes, ← (← array? fields).mapM field?,
      ← (← array? methods).mapM method?⟩
  | _ => none

def image? (v : JsonValue) : Option Image := do
  match ← record? ["name", "references", "types"] v with
  | [name, references, types] =>
    return ⟨← text? name, ← texts? references, ← (← array? types).mapM type?⟩
  | _ => none

end TestBench.Image.Body
