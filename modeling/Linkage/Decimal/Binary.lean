/-
# Doubles as exact binary numbers

Everything that writes a double exactly starts from its 64 bits.  A finite double is an integer
`mantissa` times a power of two, with a sign of its own: `-0.0` is the zero mantissa with the
negative sign.
-/

namespace Linkage.Decimal

/-- The finite number `± mantissa · 2 ^ exponent`. -/
structure Binary where
  negative : Bool
  mantissa : Nat
  exponent : Int
  deriving DecidableEq, Repr

/-- What the bits of a double stand for. -/
inductive Value where
  | nan
  | infinite (negative : Bool)
  | finite (number : Binary)
  deriving DecidableEq, Repr

/-- The bit above the 52 stored bits of a mantissa, present in every normal number. -/
def hiddenBit : Nat := Nat.pow 2 52

/-- Splits 64 bits into sign, exponent field and mantissa field.  The exponent field 0 holds the
numbers without a hidden bit, the field 2047 the infinities and NaN. -/
def valueOfBits (bits : Nat) : Value :=
  let negative := bits / Nat.pow 2 63 % 2 == 1
  let field := bits / hiddenBit % 2048
  let stored := bits % hiddenBit
  if field = 2047 then
    if stored = 0 then .infinite negative else .nan
  else if field = 0 then
    .finite ⟨negative, stored, -1074⟩
  else
    .finite ⟨negative, hiddenBit + stored, (field : Int) - 1075⟩

def valueOf (x : Float) : Value :=
  valueOfBits x.toBits.toNat

/-- A positive rational `numerator / denominator`. -/
structure Ratio where
  numerator : Nat
  denominator : Nat
  deriving DecidableEq, Repr

/-- `n · 2 ^ e` as a quotient of integers. -/
def Ratio.ofBinary (n : Nat) (e : Int) : Ratio :=
  ⟨n * Nat.pow 2 e.toNat, Nat.pow 2 (-e).toNat⟩

/-- `r · 10 ^ e`. -/
def Ratio.scale (r : Ratio) (e : Int) : Ratio :=
  ⟨r.numerator * Nat.pow 10 e.toNat, r.denominator * Nat.pow 10 (-e).toNat⟩

/-- How many decimal digits `n` has; 0 has one. -/
def digitCount (n : Nat) : Nat :=
  (Nat.toDigits 10 n).length

/-- The decimal exponent of a positive ratio: the `e` with `10 ^ e ≤ r < 10 ^ (e + 1)`.  Below 1
it is minus the least power of ten that lifts `r` to 1 or above. -/
def Ratio.magnitude (r : Ratio) : Int :=
  let whole := r.numerator / r.denominator
  if whole = 0 then
    let lift := (r.denominator + r.numerator - 1) / r.numerator
    Int.negOfNat (digitCount (lift - 1))
  else
    (digitCount whole : Int) - 1

end Linkage.Decimal
