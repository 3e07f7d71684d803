import Linkage.Decimal.Shortest

/-
# How a double is written

Three texts of a double occur in reports, match files and messages:

* `plain`: the shortest decimal, always positional and without `.0`;
* `exact`: the shortest decimal with `.0` for integers, and with an exponent for numbers of at
  least `10 ^ 16` or below `10 ^ -4`;
* `fixed n`: `n` places after the point, the exact value rounded half to even.

All of them write `NaN`, `inf` and `-inf`, and keep the sign of a negative zero.  A double exactly
between two shortest decimals is written as the upper one; `exactWith` leaves that choice open.
-/

namespace Linkage.Decimal

/-- A text for each kind of value, given one for the positive numbers. -/
def layout (positive : (mantissa : Nat) → (exponent : Int) → String) (x : Float) : String :=
  match valueOf x with
  | .nan => "NaN"
  | .infinite negative => if negative then "-inf" else "inf"
  | .finite n => (if n.negative then "-" else "") ++ positive n.mantissa n.exponent

def zeros (n : Nat) : String :=
  String.ofList (List.replicate n '0')

/-- Positional text: digits, and a point where the exponent is negative. -/
def Scaled.positional (s : Scaled) : String :=
  let digits := Nat.toDigits 10 s.coefficient
  if 0 ≤ s.exponent then
    String.ofList digits ++ zeros s.exponent.toNat
  else
    let places := (-s.exponent).toNat
    let padded := List.replicate (places + 1 - digits.length) '0' ++ digits
    let whole := padded.length - places
    String.ofList (padded.take whole) ++ "." ++ String.ofList (padded.drop whole)

/-- Scientific text: one digit, the others after a point, and the exponent after an `e`. -/
def Scaled.scientific (s : Scaled) : String :=
  match Nat.toDigits 10 s.coefficient with
  | [] => ""
  | lead :: rest =>
    let fraction := if rest.isEmpty then "" else "." ++ String.ofList rest
    lead.toString ++ fraction ++ "e" ++ toString (s.exponent + rest.length)

/-- The shortest decimal of a double, never with an exponent: `0.1`, `100`, `-0`. -/
def plain : Float → String :=
  layout fun mantissa exponent =>
    if mantissa = 0 then "0" else (shortest .upper mantissa exponent).positional

/-- The shortest decimal of a double with a mark of its type, and `tie` between two of them. -/
def exactWith (tie : Tie) : Float → String :=
  layout fun mantissa exponent =>
    if mantissa = 0 then "0.0"
    else
      let s := shortest tie mantissa exponent
      let lead := s.exponent + (digitCount s.coefficient : Int) - 1
      if 16 ≤ lead || lead < -4 then s.scientific
      else if 0 ≤ s.exponent then s.positional ++ ".0"
      else s.positional

/-- The shortest decimal of a double with a mark of its type: `0.1`, `100.0`, `1e16`, `1e-7`. -/
def exact : Float → String :=
  exactWith .upper

/-- `numerator / denominator` rounded to an integer, a half to the even neighbour. -/
def roundHalfEven (numerator denominator : Nat) : Nat :=
  let below := numerator / denominator
  let rest := 2 * (numerator % denominator)
  if rest < denominator || (rest = denominator && below % 2 = 0) then below else below + 1

/-- A double with a fixed number of places after the point. -/
def fixed (places : Nat) : Float → String :=
  layout fun mantissa exponent =>
    let r := (Ratio.ofBinary mantissa exponent).scale places
    Scaled.positional ⟨roundHalfEven r.numerator r.denominator, -(places : Int)⟩

end Linkage.Decimal
