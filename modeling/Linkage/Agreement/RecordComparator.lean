import Linkage.Agreement.FieldComparator
import Linkage.Agreement.PatternSpace
import Linkage.Record

/-
# Record comparators

A record comparator applies a list of field comparators to two records.  Side A is the left
collection and side B the right one.  With blank handling, level 0 of every comparator means that
one of the two values is blank, and the other levels move up by one.
-/

namespace Linkage

/-- A field comparator with the fields of both sides that it compares. -/
structure Binding where
  nameA : String
  nameB : String
  indexA : Nat
  indexB : Nat
  comparator : FieldComparator

/-- Compares the records of two schemas.  Two comparators are the same one only if they have the
same serial. -/
structure RecordComparator where
  serial : Nat
  bindings : List Binding
  handleBlanks : Bool
  patternCount : Nat

namespace Binding

def make (a b : Schema) (nameA nameB : String) (comparator : FieldComparator) :
    Except Error Binding := do
  comparator.check
  let indexA ← a.fieldIndex nameA
  let indexB ← b.fieldIndex nameB
  return ⟨nameA, nameB, indexA, indexB, comparator⟩

/-- How many levels the binding has, the level for blanks included. -/
def levels (b : Binding) (handleBlanks : Bool) : Nat :=
  b.comparator.levels + handleBlanks.toNat

/-- The level of two fields.  A blank counts as no agreement and equal texts as full agreement,
whatever the comparator. -/
def level (b : Binding) (handleBlanks : Bool) (x y : Field) : Except Error Nat :=
  if x.isBlank || y.isBlank then .ok 0
  else if x.text = y.text then .ok (b.comparator.levels - 1 + handleBlanks.toNat)
  else if b.comparator.isExact then .ok handleBlanks.toNat
  else do return (← b.comparator.compare x y) + handleBlanks.toNat

/-- The label of the compared fields: one name if both sides share it. -/
def label (b : Binding) : String :=
  if b.nameA = b.nameB then b.nameA else b.nameA ++ "/" ++ b.nameB

end Binding

namespace RecordComparator

/-- A comparator from its bindings.  There must be one, and the patterns must be numbered with 64
bits. -/
def make (serial : Nat) (bindings : List Binding) (handleBlanks : Bool) :
    Except Error RecordComparator :=
  if bindings.isEmpty then .error (.invalidComparator .noComparison)
  else
    match PatternSpace.sizeWithin? 1 (bindings.map (·.levels handleBlanks)) with
    | some n => .ok ⟨serial, bindings, handleBlanks, n⟩
    | none => .error (.invalidComparator .tooManyPatterns)

/-- The level count of every comparator, the level for blanks included. -/
def levels (c : RecordComparator) : List Nat :=
  c.bindings.map (·.levels c.handleBlanks)

def fieldNames (c : RecordComparator) : List (String × String) :=
  c.bindings.map fun b => (b.nameA, b.nameB)

def compare (c : RecordComparator) (a b : Record) : Except Error Pattern :=
  c.bindings.mapM fun binding => do
    let x ← a.field binding.indexA
    let y ← b.field binding.indexB
    binding.level c.handleBlanks x y

/-- The number of a pattern.  The pattern must have one level per comparator, each in range. -/
def patternIndex (c : RecordComparator) (p : Pattern) : Except Error Nat :=
  if p.length ≠ c.levels.length then
    .error (.misuse (.patternLength p.length c.levels.length))
  else
    match PatternSpace.outOfRange? c.levels p with
    | some (level, levels) => .error (.misuse (.level level levels))
    | none => .ok (PatternSpace.encode c.levels p)

/-- The pattern with a number, which must be in range. -/
def patternAt (c : RecordComparator) (index : Nat) : Except Error Pattern :=
  if index < c.patternCount then .ok (PatternSpace.decode c.levels index)
  else .error (.misuse (.patternIndex index c.patternCount))

def compareIndex (c : RecordComparator) (a b : Record) : Except Error Nat := do
  c.patternIndex (← c.compare a b)

/-- The values of a record that side A reads. -/
def valuesA (c : RecordComparator) (r : Record) : Except Error (List String) :=
  c.bindings.mapM fun binding => do return (← r.field binding.indexA).text

/-- The values of a record that side B reads. -/
def valuesB (c : RecordComparator) (r : Record) : Except Error (List String) :=
  c.bindings.mapM fun binding => do return (← r.field binding.indexB).text

end RecordComparator

end Linkage
