/-!
Signed 64-bit integers as a range of the integers. Arithmetic is done on the
integers and is refused when the result leaves the range.
-/
namespace TestBench

structure Word where
  val : Int
  lower : -0x8000000000000000 ≤ val
  upper : val < 0x8000000000000000
  deriving DecidableEq

namespace Word

def ofInt? (n : Int) : Option Word :=
  if h : -0x8000000000000000 ≤ n ∧ n < 0x8000000000000000 then some ⟨n, h.1, h.2⟩ else none

def zero : Word := ⟨0, by decide, by decide⟩

instance : Inhabited Word := ⟨zero⟩

instance : Repr Word := ⟨fun w p => reprPrec w.val p⟩

theorem ofInt?_val (w : Word) : ofInt? w.val = some w :=
  dif_pos ⟨w.lower, w.upper⟩

theorem ofInt?_eq_some {n : Int} {w : Word} : ofInt? n = some w ↔ w.val = n := by
  constructor
  · intro h
    unfold ofInt? at h
    split at h
    · exact Option.some.inj h ▸ rfl
    · simp at h
  · rintro rfl
    exact ofInt?_val w

theorem ofInt?_isSome {n : Int} :
    (ofInt? n).isSome ↔ -0x8000000000000000 ≤ n ∧ n < 0x8000000000000000 := by
  unfold ofInt?
  split
  · next h => exact ⟨fun _ => h, fun _ => rfl⟩
  · next h => exact ⟨fun e => absurd e (by simp), fun e => absurd e h⟩

def add (a b : Word) : Option Word := ofInt? (a.val + b.val)

def sub (a b : Word) : Option Word := ofInt? (a.val - b.val)

def mul (a b : Word) : Option Word := ofInt? (a.val * b.val)

def neg (a : Word) : Option Word := ofInt? (-a.val)

/-- The quotient truncated toward zero. -/
def div (a b : Word) : Option Word := ofInt? (a.val.tdiv b.val)

/-- The remainder with the sign of the dividend, refused when the quotient is. -/
def mod (a b : Word) : Option Word := (a.div b).bind fun _ => ofInt? (a.val.tmod b.val)

/-- The decimal digits, after a minus sign if negative. -/
def toDecimal (w : Word) : String := toString w.val

end Word

end TestBench
