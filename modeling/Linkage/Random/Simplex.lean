import Linkage.Arithmetic
import Linkage.Error

/-
# Random probability vectors

A point of the simplex with `n` coordinates is drawn by cutting the unit interval at `n - 1`
random places: the coordinates are the lengths of the pieces.
-/

namespace Linkage.Simplex

/-- The first length that no vector can have: its doubles would take `2 ^ 63` bytes. -/
def limit : Nat := Nat.pow 2 60

def checkLength (n : Nat) : Except Error Unit :=
  if n < limit then .ok () else .error (.misuse .vectorTooLong)

variable {γ α : Type} [Arithmetic α] [Draws γ α]

@[specialize] def drawList : (n : Nat) → γ → List α × γ
  | 0, g => ([], g)
  | n + 1, g =>
    let (x, g) := Draws.draw g
    let (xs, g) := drawList n g
    (x :: xs, g)

/-- The lengths of the pieces from `start` to 1 that some ascending places cut. -/
@[specialize] def pieces (start : α) : List α → List α
  | [] => [1 - start]
  | cut :: cuts => (cut - start) :: pieces cut cuts

@[specialize] def ascending (xs : List α) : List α :=
  xs.mergeSort fun a b => (Arithmetic.order a b).isLE

/-- A random probability vector of length `n`.  Up to length 1 there is nothing to draw. -/
@[specialize] def partition : (n : Nat) → γ → List α × γ
  | 0, g => ([], g)
  | 1, g => ([1], g)
  | n + 2, g =>
    let (cuts, g) := drawList (n + 1) g
    (pieces 0 (ascending cuts), g)

/-- Random probability vectors of some lengths, drawn one after the other. -/
@[specialize] def partitions : (lengths : List Nat) → γ → List (List α) × γ
  | [], g => ([], g)
  | n :: ns, g =>
    let (row, g) := partition n g
    let (rows, g) := partitions ns g
    (row :: rows, g)

/-- Tables of random probability vectors of some lengths, drawn table by table. -/
@[specialize] def tables (lengths : List Nat) : (count : Nat) → γ → List (List (List α)) × γ
  | 0, g => ([], g)
  | n + 1, g =>
    let (rows, g) := partitions lengths g
    let (rest, g) := tables lengths n g
    (rows :: rest, g)

end Linkage.Simplex
