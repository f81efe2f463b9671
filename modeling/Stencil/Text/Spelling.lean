import Stencil.Text.Case

/-!
# Spelling hints

The number of insertions, deletions and substitutions that turn one byte string
into another measures how far apart they are. A name that is not known is answered
with the nearest known one, unless more than half of it would have to change.
-/

namespace Stencil

/-- The next row of the table of distances for the byte `c`: `diag` and `left` are the
entries before the place to be filled, in the row above and in this row. -/
def distanceRow (c : UInt8) : (diag left : Nat) → (y : Bytes) → (above : List Nat) → List Nat
  | diag, left, b :: y, up :: above =>
    let k := min (min (diag + if c = b then 0 else 1) (left + 1)) (up + 1)
    k :: distanceRow c up k y above
  | _, _, _, _ => []

/-- Fill the table row by row. `i` is the first entry of the row just filled and `above`
the others. If a whole row exceeds `bound` its least entry is the answer. -/
def distanceRows (y : Bytes) (bound : Nat) : (x : Bytes) → (i : Nat) → (above : List Nat) → Nat
  | [], i, above => above.getLast?.getD i
  | c :: x, i, above =>
    let row := distanceRow c i (i + 1) y above
    let least := row.foldl min (i + 1)
    if bound < least then least else distanceRows y bound x (i + 1) row

/-- Drop what two byte strings have in common at their start, unless one is the start
of the other. -/
def dropCommon : (x y : Bytes) → Option (Bytes × Bytes)
  | a :: x, b :: y => if a = b then dropCommon x y else some (a :: x, b :: y)
  | _, _ => none

/-- The distance of two byte strings; above `bound`, some number above `bound`. -/
def editDistance (x y : Bytes) (bound : Nat) : Nat :=
  let (x, y) := if y.length < x.length then (y, x) else (x, y)
  let (x, y) := (dropCommon x y).getD (x, y)
  if x.isEmpty then y.length
  else distanceRows y bound x 0 ((List.range y.length).map (· + 1))

/-- Names are compared without underscores and regardless of case. -/
def foldName (s : Bytes) : Bytes :=
  s.glyphs.flatMap fun g => match g with
    | .char '_' => []
    | g => Bytes.ofChar (lowerChar g.toChar)

/-- The candidate nearest to a name, if it is near enough; the earliest one of several. -/
def nearest? (x : Bytes) (candidates : List Bytes) : Option Bytes :=
  let x := foldName x
  let step (best : Nat × Option Bytes) (c : Bytes) : Nat × Option Bytes :=
    let d := editDistance x (foldName c) best.1
    if d < best.1 then (d, some c) else best
  (candidates.foldl step ((x.length + 1) / 2, none)).2

/-- The hint after a message about an unknown name. -/
def didYouMean (x : Bytes) (candidates : List Bytes) : Bytes :=
  match nearest? x candidates with
  | some n => if n.isEmpty then [] else Bytes.ofString " (did you mean " ++ n ++ "?)"
  | none => []

end Stencil
