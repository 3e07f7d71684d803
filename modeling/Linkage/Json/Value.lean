import Linkage.Decimal.Reading

/-
# JSON values

Numbers keep the distinction between whole numbers of 64 bits and doubles, because counts and
seeds are read exactly.  Objects keep their members in order and may repeat a key; whoever reads
an object decides what that means.

A whole number that fits in 64 bits is kept as it is.  Every other number becomes a double: as
many digits as fit in 64 bits form an integer, which is converted and then multiplied or divided
by one power of ten.  The result is the nearest double when both factors are exact and may be the
neighbour of it otherwise.  A number beyond the doubles is refused.
-/

namespace Linkage

/-- A number as it was written: whole and nonnegative, whole and negative, or anything else. -/
inductive Json.Number where
  | natural (n : Nat)
  | negative (n : Nat)
  | double (x : Float)

/-- A JSON value.  `unreadable` is a number beyond the doubles, a text with half a surrogate pair or
an object with such a text for a key: it may be passed over, but no value can be read from it. -/
inductive Json where
  | null
  | bool (b : Bool)
  | number (n : Json.Number)
  | string (s : String)
  | array (items : List Json)
  | object (members : List (String × Json))
  | unreadable

namespace Json

/-! ## Numbers -/

/-- The first number that does not fit in 64 bits. -/
def wordLimit : Nat := Nat.pow 2 64

/-- Appends digits to an integer while it fits in 64 bits, and counts those appended. -/
def absorb (n : Nat) : List Nat → Nat × Nat
  | [] => (n, 0)
  | d :: ds =>
    if 10 * n + d < wordLimit then
      let (m, k) := absorb (10 * n + d) ds
      (m, k + 1)
    else (n, 0)

/-- `x` divided by `10 ^ (308 * steps)`, in `steps` divisions. -/
def lowered (x : Float) : (steps : Nat) → Float
  | 0 => x
  | steps + 1 => lowered (x / Decimal.nearest 1 308) steps

/-- The double for `n · 10 ^ exponent`, unless it is beyond the doubles. -/
def scaled? (n : Nat) (exponent : Int) : Option Float :=
  let x := n.toUInt64.toFloat
  if 0 ≤ exponent then
    if n = 0 then some x
    else if 308 < exponent then none
    else
      let y := x * Decimal.nearest 1 exponent
      if y.isInf then none else some y
  else
    let drop := exponent.natAbs
    if n = 0 || 308 * 3 < drop then some 0.0
    else some (lowered x ((drop - 1) / 308) / Decimal.nearest 1 ((drop - 1) % 308 + 1))

/-- The parts of a number as it is written. -/
structure Literal where
  negative : Bool
  whole : List Nat
  fraction : List Nat
  exponent : Option Int

/-- The value of a number with a fraction, an exponent or too many digits. -/
def Literal.double (l : Literal) : Json :=
  let (n, used) := absorb 0 l.whole
  let (n, places) := absorb n l.fraction
  let dropped := l.whole.length - used
  match scaled? n (l.exponent.getD 0 + dropped - places) with
  | none => .unreadable
  | some x => .number (.double (if l.negative then -x else x))

def Literal.value (l : Literal) : Json :=
  let n := Decimal.valueOfDigits l.whole
  if !l.fraction.isEmpty || l.exponent.isSome || wordLimit ≤ n then l.double
  else if !l.negative then .number (.natural n)
  else if n = 0 || Nat.pow 2 63 < n then .number (.double (-n.toUInt64.toFloat))
  else .number (.negative n)

/-- Splits off the digits before the point: `0`, or digits that do not start with `0`. -/
def wholePart? (cs : List Char) : Option (List Nat × List Char) :=
  match Decimal.digits cs with
  | ([], _) => none
  | (0 :: _ :: _, _) => none
  | parts => some parts

/-- Splits off a point and the digits after it, of which there must be one. -/
def fractionPart? : List Char → Option (List Nat × List Char)
  | '.' :: rest =>
    match Decimal.digits rest with
    | ([], _) => none
    | parts => some parts
  | cs => some ([], cs)

/-- Splits off an exponent: `e`, an optional sign and digits. -/
def exponentPart? : List Char → Option (Option Int × List Char)
  | [] => some (none, [])
  | c :: rest =>
    if c = 'e' || c = 'E' then
      let (negative, cs) := Decimal.sign rest
      match Decimal.digits cs with
      | ([], _) => none
      | (ds, tail) =>
        let n : Int := Decimal.valueOfDigits ds
        some (some (if negative then -n else n), tail)
    else some (none, c :: rest)

def number? (cs : List Char) : Option (Json × List Char) := do
  let (negative, cs) := match cs with
    | '-' :: rest => (true, rest)
    | _ => (false, cs)
  let (whole, cs) ← wholePart? cs
  let (fraction, cs) ← fractionPart? cs
  let (exponent, cs) ← exponentPart? cs
  return (Literal.value ⟨negative, whole, fraction, exponent⟩, cs)

end Json

end Linkage
