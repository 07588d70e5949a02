/-!
How similar two names are. The measure of Jaro counts the letters that two
names share at about the same place, and how many of them come in another
order. It is a mean of three quotients in binary floating point, whose rounding
decides on which side of a limit a mean falls that lies on it.
-/
namespace TestBench.CommandLine

/-- The places of letters in the second name that are shared with the first, in the order of the
first name. No place is shared twice. -/
def sharedPlaces (a b : List Char) : List (Char × Nat) :=
  let range := max a.length b.length / 2 - 1
  (a.zipIdx.foldl (fun found (c, i) =>
    let place := (b.zipIdx.take (i + range + 1)).find? fun (d, j) =>
      i ≤ j + range && c == d && !found.any (·.2 == j)
    match place with
    | some (_, j) => found ++ [(c, j)]
    | none => found) [])

/-- The similarity of two names, from 0 to 1. -/
def similarity (a b : List Char) : Float :=
  let shared := sharedPlaces a b
  let inFirst := shared.map (·.1)
  let inSecond := (b.zipIdx.filter fun (_, j) => shared.any (·.2 == j)).map (·.1)
  let moved := (inFirst.zip inSecond).countP (fun (c, d) => c != d) / 2
  let count := shared.length
  if a.isEmpty ∧ b.isEmpty then 1
  else if count = 0 then 0
  else
    let m := count.toFloat
    (m / a.length.toFloat + m / b.length.toFloat + (count - moved).toFloat / m) / 3

/-- Above this similarity a name may have been meant. -/
def similarEnough : Float := 0.7

/-- The last of the names that are most similar, if they are similar enough. -/
def mostSimilar? (name : String) (names : List String) : Option String :=
  let scored := names.map fun n => (n, similarity name.toList n.toList)
  let close := scored.filter fun (_, s) => similarEnough < s
  (close.foldl (fun best next => match best with
    | some found => if next.2 < found.2 then some found else some next
    | none => some next) none).map (·.1)

end TestBench.CommandLine
