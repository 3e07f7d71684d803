import Linkage.Decimal.Layout

/-
# The arithmetic of weights and scores

Similarities, estimates and scores are computed with whatever carries an `Arithmetic`.  Programs
run with doubles; the laws of the formulas are laws about exact numbers.  Every formula keeps the
order in which it is written, because doubles are not associative.
-/

namespace Linkage

/-- The operations that the formulas use.  `text` writes a number in messages, `ofFloat` reads the
number that a setting stands for, and `ceil` is the least count that is not below a number.  `order`
puts all numbers in order, also those that `<` does not compare. -/
class Arithmetic (α : Type) extends Zero α, One α, Add α, Sub α, Mul α, Div α, Neg α, LT α, LE α,
    BEq α, NatCast α, OfScientific α where
  decidableLT : DecidableLT α
  decidableLE : DecidableLE α
  log : α → α
  ofFloat : Float → α
  ceil : α → Nat
  text : α → String
  order : α → α → Ordering

namespace Arithmetic

attribute [reducible, instance] decidableLT decidableLE

variable {α : Type} [Arithmetic α]

/-- The sum of a list, from the left.  The neutral element of addition is `-0`: a sum of negative
zeros is one too. -/
@[specialize] def sum (xs : List α) : α :=
  xs.foldl (· + ·) (-0)

def abs (x : α) : α :=
  if x < 0 then -x else x

/-- The lesser of two numbers.  One that does not equal itself is passed over. -/
def least (a b : α) : α :=
  if a < b then a else if b < a then b else if a == a then a else b

end Arithmetic

/-- The place of a double in the order of its bits: `-0` lies below `0`, and what is not a number
lies above all numbers. -/
def Arithmetic.rank (x : Float) : Int :=
  let bits := x.toBits.toNat
  if bits < Nat.pow 2 63 then bits else -((bits - Nat.pow 2 63 : Nat) : Int) - 1

/-- Doubles.  Counts have at most 64 bits, so that each becomes the nearest double. -/
instance : Arithmetic Float where
  zero := 0.0
  one := 1.0
  natCast n := n.toUInt64.toFloat
  decidableLT := inferInstance
  decidableLE := inferInstance
  log := Float.log
  ofFloat x := x
  ceil x := x.ceil.toUInt64.toNat
  text := Decimal.plain
  order x y := compare (Arithmetic.rank x) (Arithmetic.rank y)

/-- A source of random numbers: the next draw, between 0 and 1, and the source after it. -/
class Draws (γ α : Type) where
  draw : γ → α × γ

end Linkage
