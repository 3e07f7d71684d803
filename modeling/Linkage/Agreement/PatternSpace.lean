/-
# Pattern spaces

An agreement pattern has one level per comparator.  The patterns are numbered like the digits of a
number with one base per digit, the first digit varying fastest.
-/

namespace Linkage

/-- One agreement level per comparator. -/
abbrev Pattern := List Nat

namespace PatternSpace

def size (levels : List Nat) : Nat :=
  levels.foldr (· * ·) 1

/-- What one level of every comparator counts in the number of a pattern: the product of the level
counts before it. -/
def steps : (product : Nat) → (levels : List Nat) → List Nat
  | _, [] => []
  | product, n :: ns => product :: steps (product * n) ns

/-- What every level of a pattern adds to its number. -/
def products (levels : List Nat) (p : Pattern) : List Nat :=
  p.zipWith (· * ·) (steps 1 levels)

/-- The number of a pattern. -/
def encode (levels : List Nat) (p : Pattern) : Nat :=
  (products levels p).foldl (· + ·) 0

/-- How often each step goes into what the steps before it leave of a number. -/
def quotients : (steps : List Nat) → (rest : Nat) → List Nat
  | [], _ => []
  | step :: steps, rest => rest / step :: quotients steps (rest % step)

/-- The pattern with a number: its last level has the greatest step and is found first. -/
def decode (levels : List Nat) (index : Nat) : Pattern :=
  (quotients (steps 1 levels).reverse index).reverse

/-- The first level of a pattern that is out of range, with its level count. -/
def outOfRange? : (levels : List Nat) → Pattern → Option (Nat × Nat)
  | n :: ns, l :: ls => if l < n then outOfRange? ns ls else some (l, n)
  | _, _ => none

/-- The first number of patterns that is too large to number them with 64 bits. -/
def limit : Nat := Nat.pow 2 64

/-- The number of patterns, built up factor by factor, if it stays below the limit. -/
def sizeWithin? : (product : Nat) → (levels : List Nat) → Option Nat
  | product, [] => some product
  | product, n :: ns => if product * n < limit then sizeWithin? (product * n) ns else none

end PatternSpace

end Linkage
