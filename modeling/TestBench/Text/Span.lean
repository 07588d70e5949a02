/-!
Source positions are byte offsets into the UTF-8 form of a text. A span is a
half-open interval of them, and a spanned value carries the interval it was
read from.
-/
namespace TestBench

/-- The number of bytes that the characters take in UTF-8. -/
def byteLength : List Char → Nat
  | [] => 0
  | c :: rest => c.utf8Size + byteLength rest

@[simp] theorem byteLength_nil : byteLength [] = 0 := rfl

@[simp] theorem byteLength_cons (c : Char) (cs : List Char) :
    byteLength (c :: cs) = c.utf8Size + byteLength cs := rfl

@[simp] theorem byteLength_append (xs ys : List Char) :
    byteLength (xs ++ ys) = byteLength xs + byteLength ys := by
  induction xs with
  | nil => simp
  | cons c rest ih => simp [ih, Nat.add_assoc]

structure Span where
  start : Nat
  stop : Nat
  deriving DecidableEq, Repr, Inhabited

namespace Span

/-- The empty interval at one offset. -/
def empty (offset : Nat) : Span := ⟨offset, offset⟩

/-- The least interval that holds both. -/
def merge (a b : Span) : Span := ⟨min a.start b.start, max a.stop b.stop⟩

/-- The interval `distance` bytes further on. -/
def shift (a : Span) (distance : Nat) : Span := ⟨a.start + distance, a.stop + distance⟩

def length (a : Span) : Nat := a.stop - a.start

end Span

structure Spanned (α : Type) where
  node : α
  span : Span
  deriving DecidableEq, Repr

instance {α : Type} [Inhabited α] : Inhabited (Spanned α) := ⟨⟨default, default⟩⟩

namespace Spanned

def map {α β : Type} (f : α → β) (a : Spanned α) : Spanned β := ⟨f a.node, a.span⟩

end Spanned

end TestBench
