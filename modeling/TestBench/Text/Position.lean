import TestBench.Text.Span

/-!
Lines and columns. A text is cut into lines at its line feeds; a byte offset
belongs to the line whose bytes, or whose final line feed, it falls on, and
the column counts bytes from the start of that line. Offsets past the end
stand for the end.
-/
namespace TestBench

/-- The pieces of a text between its line feeds; there is always at least one. -/
def splitLines : List Char → List (List Char)
  | [] => [[]]
  | c :: rest =>
    if c = '\n' then [] :: splitLines rest
    else match splitLines rest with
      | [] => [[c]]
      | line :: more => (c :: line) :: more

/-- Line and column count from one; `text` is the line without its line feed. -/
structure Position where
  line : Nat
  column : Nat
  text : List Char
  deriving DecidableEq, Repr

namespace Position

/-- The position `offset` bytes into the lines, the first of which has number `line`. -/
def among (line offset : Nat) : List (List Char) → Position
  | [] => ⟨line, 1, []⟩
  | [last] => ⟨line, min offset (byteLength last) + 1, last⟩
  | text :: next :: more =>
    if offset ≤ byteLength text then ⟨line, offset + 1, text⟩
    else among (line + 1) (offset - (byteLength text + 1)) (next :: more)

def ofOffset (source : List Char) (offset : Nat) : Position :=
  among 1 offset (splitLines source)

end Position

end TestBench
