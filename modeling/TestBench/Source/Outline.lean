import TestBench.Source.Tree
import TestBench.Text.Escaped

/-!
Trees as nested lists in parentheses. Each node shows its span and then its
parts in source order.
-/
namespace TestBench.Source

namespace Outline

/-- The items in parentheses, one space between them. -/
def node (items : List String) : String := "(" ++ " ".intercalate items ++ ")"

def span (s : Span) : String := toString s.start ++ ".." ++ toString s.stop

def constant (s : Span) : Constant → String
  | .integer n => node ["int", span s, n.toDecimal]
  | .boolean b => node ["bool", span s, if b then "true" else "false"]
  | .text t => node ["str", span s, Escaped.ofString t]

def unaryOp : UnaryOp → String
  | .neg => "neg"
  | .not => "not"

def expr : Expr → String
  | .constant s value => constant s value
  | .name s name => node ["name", span s, name]
  | .unary s op operand => node [unaryOp op, span s, expr operand]
  | .binary s op left right => node [op.symbol, span s, expr left, expr right]
  | .call s callee arguments =>
    node ("call" :: span s :: callee.node.written :: span callee.span :: arguments.map expr)
  | .paren s inner => node ["paren", span s, expr inner]

mutual

def stmt : Stmt → String
  | .bind s name value => node ["let", span s, name, expr value]
  | .assign s target value => node ["assign", span s, target, expr value]
  | .return s value => node ("return" :: span s :: value.toList.map expr)
  | .ifThen s condition body => node ["if", span s, expr condition, block body]
  | .ifElse s condition body otherwise =>
    node ["if", span s, expr condition, block body, block otherwise]
  | .while s condition body => node ["while", span s, expr condition, block body]
  | .expr s value => node ["expr", span s, expr value]

def block (body : List Stmt) : String := node ("block" :: stmts body)

def stmts : List Stmt → List String
  | [] => []
  | s :: rest => stmt s :: stmts rest

end

def attributeItem (a : Attribute) : String :=
  node ("attribute" :: span a.span :: a.name.written :: a.arguments.map expr)

def field (f : Field) : String := node ["field", span f.span, f.name, expr f.value]

def parameter (p : Spanned String) : String := node [p.node, span p.span]

def method (m : Method) : String :=
  node (["method", span m.span, m.name.node, span m.name.span] ++ m.attributes.map attributeItem
    ++ [node ("params" :: m.parameters.map parameter), block m.body])

def classDecl (c : ClassDecl) : String :=
  node (["class", span c.span, c.name.node, span c.name.span] ++ c.attributes.map attributeItem
    ++ c.fields.map field ++ c.methods.map method)

def directive (word : String) (name : Spanned QualifiedName) : String :=
  node [word, span name.span, name.node.written]

end Outline

def Program.outline (p : Program) : String :=
  Outline.node ("program" :: p.space.toList.map (Outline.directive "namespace")
    ++ p.uses.map (Outline.directive "use") ++ p.classes.map Outline.classDecl)

end TestBench.Source
