/-
# Reading numbers from text

Two grammars occur in record fields: whole numbers of 64 bits and doubles.  Neither allows blanks
around the number, digit separators or a base.
-/

namespace Linkage.Decimal

def digit? (c : Char) : Option Nat :=
  if '0' ≤ c && c ≤ '9' then some (c.toNat - '0'.toNat) else none

/-- The leading digits of a text and what follows them. -/
def digits : List Char → List Nat × List Char
  | [] => ([], [])
  | c :: rest =>
    match digit? c with
    | none => ([], c :: rest)
    | some d => let (ds, tail) := digits rest; (d :: ds, tail)

/-- The number that a list of digits writes, most significant first. -/
def valueOfDigits (ds : List Nat) : Nat :=
  ds.foldl (fun n d => 10 * n + d) 0

/-- Splits an optional sign off; the flag says whether it was a minus. -/
def sign : List Char → Bool × List Char
  | '-' :: rest => (true, rest)
  | '+' :: rest => (false, rest)
  | cs => (false, cs)

/-- A whole number with an optional sign, if it fits in 64 bits. -/
def readInt? (s : String) : Option Int :=
  let (negative, cs) := sign s.toList
  match digits cs with
  | (d :: ds, []) =>
    let n := valueOfDigits (d :: ds)
    if negative then
      if n ≤ Nat.pow 2 63 then some (-(n : Int)) else none
    else
      if n < Nat.pow 2 63 then some (n : Int) else none
  | _ => none

/-- The double nearest to `coefficient · 10 ^ exponent`.  From `10 ^ 310` on that is infinity and
below `10 ^ -330` it is 0, so that powers of ten stay small. -/
def nearest (coefficient : Nat) (exponent : Int) : Float :=
  let size := ((Nat.toDigits 10 coefficient).length : Int) + exponent
  if coefficient = 0 || size < -330 then 0.0
  else if 310 < size then 1.0 / 0.0
  else Float.ofScientific coefficient (exponent < 0) exponent.natAbs

/-- The exponent part of a double: empty, or `e` and a number with an optional sign. -/
def exponentPart? : List Char → Option Int
  | [] => some 0
  | c :: rest =>
    if c = 'e' || c = 'E' then
      let (negative, cs) := sign rest
      match digits cs with
      | (d :: ds, []) =>
        let n := valueOfDigits (d :: ds)
        some (if negative then -(n : Int) else n)
      | _ => none
    else none

/-- A double without sign in digits: at least one digit before or after an optional point, then an
optional exponent. -/
def readDigits? (cs : List Char) : Option Float :=
  let (whole, tail) := digits cs
  let (fraction, tail) :=
    match tail with
    | '.' :: rest => digits rest
    | _ => ([], tail)
  if whole.isEmpty && fraction.isEmpty then none
  else
    match exponentPart? tail with
    | none => none
    | some e => some (nearest (valueOfDigits (whole ++ fraction)) (e - fraction.length))

/-- Whether a text spells an ASCII word in any case. -/
def spells (cs : List Char) (word : String) : Bool :=
  cs.map Char.toLower == word.toList

/-- A double without sign: digits, or a word for infinity or NaN. -/
def readMagnitude? (cs : List Char) : Option Float :=
  if spells cs "inf" || spells cs "infinity" then some (1.0 / 0.0)
  else if spells cs "nan" then some (0.0 / 0.0)
  else readDigits? cs

/-- A double with an optional sign, rounded to nearest. -/
def readFloat? (s : String) : Option Float :=
  let (negative, cs) := sign s.toList
  (readMagnitude? cs).map fun x => if negative then -x else x

end Linkage.Decimal
