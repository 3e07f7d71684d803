import Linkage.Decimal.Binary

/-
# The shortest decimal that reads back

A decimal `coefficient · 10 ^ exponent` reads back as the double `x` when it lies in the interval
of numbers that round to `x`.  The interval reaches half a step to either side, only a quarter
step below a power of two, and it has its end points iff the mantissa is even.

For 1, 2, … 17 digits the two neighbours of `x` on the grid with that many digits are tested.  The
first grid with a hit wins, and of two hits the nearer.  When `x` lies exactly between them, the
format says which one is taken.
-/

namespace Linkage.Decimal

/-- Which neighbour stands for a number that lies exactly between two. -/
inductive Tie where
  | upper
  | even
  deriving DecidableEq, Repr

/-- Whether a tie between `below` and its successor goes to the successor. -/
def Tie.goesUp (tie : Tie) (below : Nat) : Bool :=
  match tie with
  | upper => true
  | even => below % 2 == 1

/-- The number `coefficient · 10 ^ exponent`. -/
structure Scaled where
  coefficient : Nat
  exponent : Int
  deriving DecidableEq, Repr

/-- The numbers that round to one double, in units of a common denominator. -/
structure Interval where
  value : Nat
  low : Nat
  high : Nat
  denominator : Nat
  closed : Bool
  deriving DecidableEq, Repr

/-- The interval of numbers that round to `mantissa · 2 ^ exponent`. -/
def Interval.around (mantissa : Nat) (exponent : Int) : Interval :=
  let gap := if mantissa = hiddenBit then 1 else 2
  let unit := Ratio.ofBinary 1 (exponent - 2)
  { value := 4 * mantissa * unit.numerator
    low := (4 * mantissa - gap) * unit.numerator
    high := (4 * mantissa + 2) * unit.numerator
    denominator := unit.denominator
    closed := mantissa % 2 == 0 }

/-- Whether `n`, in the interval's unit times `scale`, lies in the interval. -/
def Interval.holds (i : Interval) (scale n : Nat) : Bool :=
  if i.closed then i.low * scale ≤ n && n ≤ i.high * scale
  else i.low * scale < n && n < i.high * scale

/-- Of the neighbours `below` and `below + 1` of `value / step`, the nearer one. -/
def nearer (tie : Tie) (value step below : Nat) : Nat :=
  let middle := (2 * below + 1) * step
  if 2 * value < middle then below
  else if middle < 2 * value || tie.goesUp below then below + 1
  else below

/-- The point of the grid of multiples of `10 ^ e` that reads back, if one of the value's two
neighbours on that grid does. -/
def Interval.onGrid? (i : Interval) (tie : Tie) (e : Int) : Option Nat :=
  let step := i.denominator * Nat.pow 10 e.toNat
  let scale := Nat.pow 10 (-e).toNat
  let value := i.value * scale
  let below := value / step
  match i.holds scale (below * step), i.holds scale ((below + 1) * step) with
  | false, false => none
  | true, false => some below
  | false, true => some (below + 1)
  | true, true => some (nearer tie value step below)

/-- Drops the zeros at the end of a coefficient, at most `fuel` of them. -/
def Scaled.trimZeros : Nat → Scaled → Scaled
  | 0, s => s
  | fuel + 1, s =>
    if s.coefficient % 10 = 0 then trimZeros fuel ⟨s.coefficient / 10, s.exponent + 1⟩ else s

/-- Tries the grids of `digits` digits and more. -/
def Interval.search (i : Interval) (tie : Tie) (magnitude : Int) : (tries digits : Nat) → Scaled
  | 0, digits =>
    let e := magnitude - digits + 1
    ⟨i.value * Nat.pow 10 (-e).toNat / (i.denominator * Nat.pow 10 e.toNat), e⟩
  | tries + 1, digits =>
    let e := magnitude - digits + 1
    match i.onGrid? tie e with
    | some n => ⟨n, e⟩
    | none => i.search tie magnitude tries (digits + 1)

/-- The shortest decimal that reads back as the positive number `mantissa · 2 ^ exponent`. -/
def shortest (tie : Tie) (mantissa : Nat) (exponent : Int) : Scaled :=
  let i := Interval.around mantissa exponent
  let magnitude := (Ratio.ofBinary mantissa exponent).magnitude
  (i.search tie magnitude 17 1).trimZeros 18

end Linkage.Decimal
