import TestBench.Path
import TestBench.Source.Grammar

/-!
Units: named sets of source files together with what they refer to, which is
either another unit or the path of a binary image. A unit is known by its name,
an image by the stem of its file.
-/
namespace TestBench

structure SourceFile where
  path : String
  text : String
  deriving DecidableEq, Repr

mutual

inductive SourceUnit where
  | mk (name : String) (sources : List SourceFile) (references : List Reference)

inductive Reference where
  | unit (u : SourceUnit)
  | binary (path : String)

end

instance : Inhabited SourceUnit := ⟨.mk "" [] []⟩

namespace SourceUnit

def name : SourceUnit → String
  | mk name .. => name

def sources : SourceUnit → List SourceFile
  | mk _ sources _ => sources

def references : SourceUnit → List Reference
  | mk _ _ references => references

end SourceUnit

/-- The name that stands for the image at a path. -/
def binaryName (path : String) : String :=
  match Path.stem? path.toList with
  | some stem => String.ofList stem
  | none => path

def Reference.name : Reference → String
  | .unit u => u.name
  | .binary path => binaryName path

/-- A diagnostic with the file it is about. -/
structure FileDiagnostic where
  file : SourceFile
  diagnostic : Diagnostic
  deriving DecidableEq, Repr

namespace FileDiagnostic

def summary (d : FileDiagnostic) : String := d.diagnostic.summary d.file.path d.file.text.toList

def render (d : FileDiagnostic) : String := d.diagnostic.render d.file.path d.file.text.toList

end FileDiagnostic

structure ParsedFile where
  file : SourceFile
  program : Source.Program

namespace SourceFile

def parse (file : SourceFile) : Except (List FileDiagnostic) ParsedFile :=
  match Source.Program.ofSource file.text.toList with
  | .ok program => .ok ⟨file, program⟩
  | .error fault => .error (fault.diagnostics.map (⟨file, ·⟩))

def position (file : SourceFile) (span : Span) : Position :=
  Position.ofOffset file.text.toList span.start

end SourceFile

def parseFiles : List SourceFile → Except (List FileDiagnostic) (List ParsedFile)
  | [] => .ok []
  | file :: rest =>
    match file.parse, parseFiles rest with
    | .ok parsed, .ok more => .ok (parsed :: more)
    | .ok _, .error later => .error later
    | .error here, .ok _ => .error here
    | .error here, .error later => .error (here ++ later)

namespace SourceUnit

/-- The trees of all files, or what is wrong in any of them. -/
def parse (u : SourceUnit) : Except (List FileDiagnostic) (List ParsedFile) :=
  parseFiles u.sources

/-- The file at a path. -/
def source? (u : SourceUnit) (path : String) : Option SourceFile :=
  u.sources.find? (Path.sameFile ·.path path)

end SourceUnit

end TestBench
