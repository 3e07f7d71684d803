import Linkage.Field
import Linkage.Similarity.Score

/-
# Field comparators

A field comparator gives two field values an agreement level.  Equality and similarity compare
texts, the other comparators compare the numbers that the texts write.

A comparator reduces two values to an agreement level: 0 for no agreement, and more the stronger
it is.  The conditions are listed from the strongest on; the level counts those from the first
that holds to the end of the list.
-/

namespace Linkage

namespace Agreement

/-- The level of the first condition that holds, among `n` of them. -/
def levelOf {β : Type} (n : Nat) (holds : β → Bool) (conditions : List β) : Nat :=
  match conditions.findIdx? holds with
  | some i => n - i
  | none => 0

variable {α : Type} [Arithmetic α]

/-- The level of two numbers under thresholds that scale with the lesser of them: condition `i`
is `|a - b| < slope i * min a b + intercept i`. -/
def proratedLevel (slopes intercepts : List α) (a b : α) : Nat :=
  let low := Arithmetic.least a b
  let gap := Arithmetic.abs (a - b)
  levelOf slopes.length (fun (slope, intercept) => decide (gap < slope * low + intercept))
    (slopes.zip intercepts)

/-- The level of two numbers under fixed thresholds: condition `i` is `|a - b| ≤ threshold i`. -/
def differenceLevel (thresholds : List α) (a b : α) : Nat :=
  let gap := Arithmetic.abs (a - b)
  levelOf thresholds.length (fun threshold => decide (gap ≤ threshold)) thresholds

/-- The level of a similarity: condition `i` is `similarity > level i`. -/
def similarityLevel (levels : List α) (similarity : α) : Nat :=
  levelOf levels.length (fun level => decide (level < similarity)) levels

end Agreement

/-- Gives two field values an agreement level. -/
inductive FieldComparator where
  /-- Level 1 for equal texts, 0 for others. -/
  | exact
  /-- The difference of two numbers against thresholds that scale with the lesser of them. -/
  | prorated (slopes intercepts : List Float)
  /-- The difference of two numbers against fixed thresholds. -/
  | absoluteDifference (thresholds : List Float)
  /-- A prorated comparison of the years from a value to the base year. -/
  | yearAdjusted (baseYear : Int) (slopes intercepts : List Float)
  /-- The similarity of two texts against thresholds. -/
  | fuzzy (levels : List Float) (adjustments : Adjustments)
  deriving BEq, Repr

/-- Whether every element of a list is related to the next. -/
def adjacent {β : Type} (related : β → β → Bool) : List β → Bool
  | a :: b :: rest => related a b && adjacent related (b :: rest)
  | _ => true

namespace FieldComparator

def standardSlopes : List Float := [0.1, 0.2, 0.4]

def standardIntercepts : List Float := [1.1, 1.0, 1.0]

def standardLevels : List Float := [0.92, 0.86, 0.81]

def standardProrated : FieldComparator :=
  prorated standardSlopes standardIntercepts

/-- A prorated comparator for birth years, seen from `baseYear`. -/
def standardYear (baseYear : Int) : FieldComparator :=
  yearAdjusted baseYear standardSlopes standardIntercepts

def standardFuzzy : FieldComparator :=
  fuzzy standardLevels {}

def pairBelow (a b : Float × Float) : Bool :=
  a.1 < b.1 || (a.1 == b.1 && a.2 < b.2)

def proratedFlaw? (slopes intercepts : List Float) : Option ComparatorFlaw :=
  if slopes.isEmpty then some .noSlope
  else if slopes.length ≠ intercepts.length then
    some (.unequalLengths slopes.length intercepts.length)
  else
    let pairs := slopes.zip intercepts
    if adjacent pairBelow pairs then none else some (.pairsNotIncreasing pairs)

/-- The flaw of a comparator's parameters: conditions must exist, be complete and get weaker from
one to the next. -/
def flaw? : FieldComparator → Option ComparatorFlaw
  | exact => none
  | prorated slopes intercepts => proratedFlaw? slopes intercepts
  | yearAdjusted _ slopes intercepts => proratedFlaw? slopes intercepts
  | absoluteDifference thresholds =>
    if thresholds.isEmpty then some .noThreshold
    else if adjacent (fun a b => decide (a < b)) thresholds then none
    else some (.thresholdsNotIncreasing thresholds)
  | fuzzy levels _ =>
    if levels.isEmpty then some .noLevel
    else if adjacent (fun a b => decide (b < a)) levels then none
    else some (.levelsNotDecreasing levels)

def check (c : FieldComparator) : Except Error Unit :=
  match c.flaw? with
  | some flaw => .error (.invalidComparator flaw)
  | none => .ok ()

/-- The comparator itself, unless it has a flaw. -/
def checked (c : FieldComparator) : Except Error FieldComparator := do
  c.check
  return c

def levels : FieldComparator → Nat
  | exact => 2
  | prorated slopes _ => slopes.length + 1
  | yearAdjusted _ slopes _ => slopes.length + 1
  | absoluteDifference thresholds => thresholds.length + 1
  | fuzzy levels _ => levels.length + 1

/-- Whether the comparator only asks for equality. -/
def isExact : FieldComparator → Bool
  | exact => true
  | _ => false

/-- The agreement level of two fields.  A numeric comparator fails on a field that is not a
number; the first field is read first. -/
def compare (c : FieldComparator) (a b : Field) : Except Error Nat :=
  match c with
  | exact => return if a.text = b.text then 1 else 0
  | prorated slopes intercepts => do
    let x ← a.asFloat
    let y ← b.asFloat
    return Agreement.proratedLevel slopes intercepts x y
  | absoluteDifference thresholds => do
    let x ← a.asFloat
    let y ← b.asFloat
    return Agreement.differenceLevel thresholds x y
  | yearAdjusted baseYear slopes intercepts => do
    let base := Float.ofInt baseYear
    let x ← a.asFloat
    let y ← b.asFloat
    return Agreement.proratedLevel slopes intercepts (base - x) (base - y)
  | fuzzy levels adjustments =>
    return Agreement.similarityLevel levels (similarity adjustments a.text b.text)

end FieldComparator

end Linkage
