import TestBench.Text.Position

/-!
Diagnostics and their printed form: a headline, the place, the offending line
with a caret under each offending byte, and then the notes and hints.
-/
namespace TestBench

namespace Diagnostic

inductive Kind where
  | general
  | syntactic
  | resolution
  deriving DecidableEq, Repr

def Kind.label : Kind → String
  | .general => "error"
  | .syntactic => "syntax error"
  | .resolution => "resolution error"

end Diagnostic

structure Diagnostic where
  kind : Diagnostic.Kind
  message : String
  span : Span
  notes : List String
  hints : List String
  deriving DecidableEq, Repr

namespace Diagnostic

def headline (d : Diagnostic) : String := d.kind.label ++ ": " ++ d.message

def position (d : Diagnostic) (source : List Char) : Position :=
  Position.ofOffset source d.span.start

/-- A place in a file, as `file:line:column`. -/
def place (file : String) (p : Position) : String :=
  file ++ ":" ++ toString p.line ++ ":" ++ toString p.column

/-- The diagnostic on one line, with its place in front. -/
def summary (d : Diagnostic) (file : String) (source : List Char) : String :=
  place file (d.position source) ++ ": " ++ d.headline

/-- The number of carets: the bytes of the span that lie on its first line, at least one. -/
def underline (d : Diagnostic) (p : Position) : Nat :=
  max 1 (min d.span.length (byteLength p.text - (p.column - 1)))

private def repeated (c : Char) (n : Nat) : String := String.ofList (List.replicate n c)

/-- The diagnostic with the line it points into. The margin is as wide as the line number. -/
def render (d : Diagnostic) (file : String) (source : List Char) : String :=
  let p := d.position source
  let number := toString p.line
  let margin := "  " ++ repeated ' ' number.length ++ " |"
  let carets := repeated ' ' (p.column - 1) ++ repeated '^' (d.underline p)
  String.join
    ([d.headline ++ "\n",
      "  --> " ++ place file p ++ "\n",
      margin ++ "\n",
      "  " ++ number ++ " | " ++ String.ofList p.text ++ "\n",
      margin ++ " " ++ carets ++ "\n"]
      ++ d.notes.map (fun note => "  = note: " ++ note ++ "\n")
      ++ d.hints.map (fun hint => "  = hint: " ++ hint ++ "\n"))

end Diagnostic

end TestBench
